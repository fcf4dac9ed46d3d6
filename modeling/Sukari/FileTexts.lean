import Sukari.CheckpointIndex
import Sukari.Nojson

/-!
# The texts of the metadata files

What `save` writes and `load` reads of `nodes.json` and `checkpoints.json`, over any crate `Nojson`.
The text that is written is loaded as the document that the file system of the engine holds in its
place (`loadNodeRegistry_eq_ofFile`, `loadCheckpointIndex_eq_ofFile`).
-/

set_option autoImplicit false
set_option relaxedAutoImplicit false

namespace Sukari

namespace Nojson

variable (J : Nojson)

/-- `format_node_registry`. -/
def formatNodeRegistry (registry : NodeRegistry) : String :=
  J.display (Sukari.formatNodeRegistry registry) 0 ++ "\n"

/-- What `NodeRegistry::load` makes of the text of the file. -/
def loadNodeRegistry (text : String) : Except IoError NodeRegistry := do
  let json ← (J.parse text).mapError invalidJson
  (parseNodeRegistry json).mapError invalidJson

/-- `format_checkpoint_index`. -/
def formatCheckpointIndex (index : CheckpointIndex) : String :=
  J.display (Sukari.formatCheckpointIndex index) 0 ++ "\n"

/-- What `CheckpointIndex::load` makes of the text of the file, before the nodes are compared. -/
def loadCheckpointIndex (text : String) : Except IoError CheckpointIndex := do
  let json ← (J.parse text).mapError invalidJson
  (parseCheckpointIndex json).mapError invalidJson

variable {J}

/-- The metadata texts of a registry are texts of parsed values. -/
def AcceptsMetadata (J : Nojson) (registry : NodeRegistry) : Prop :=
  ∀ (nodeId : NodeId) (entry : NodeRegistryEntry), registry.nodes[nodeId]? = some entry →
    J.Accepts entry.metadata.metadata.text

/-- The registry file returns the registry that was saved, with the metadata trimmed. -/
theorem loadNodeRegistry_format {registry : NodeRegistry} (h : J.AcceptsMetadata registry) :
    J.loadNodeRegistry (J.formatNodeRegistry registry) = .ok registry.reloaded := by
  obtain ⟨value, hvalue, hread⟩ := parse_display_line (printable_formatNodeRegistry h)
  rw [loadNodeRegistry, formatNodeRegistry, hvalue]
  exact congrArg (Except.mapError invalidJson) (parseNodeRegistry_readAs hread)

theorem loadNodeRegistry_eq_ofFile {registry : NodeRegistry} (h : J.AcceptsMetadata registry) :
    J.loadNodeRegistry (J.formatNodeRegistry registry) =
      NodeRegistry.ofFile (some (Sukari.formatNodeRegistry registry)) := by
  rw [loadNodeRegistry_format h, NodeRegistry.ofFile, parseNodeRegistry_format]
  rfl

theorem loadCheckpointIndex_eq_ofFile {index : CheckpointIndex}
    (h : ∀ (nodeId : NodeId) (position : RecordPosition), index.nodes[nodeId]? = some position →
      position.segment < 2 ^ 64 ∧ position.offset < 2 ^ 64) :
    J.loadCheckpointIndex (J.formatCheckpointIndex index) =
      CheckpointIndex.ofFile (some (Sukari.formatCheckpointIndex index)) := by
  obtain ⟨value, hvalue, hread⟩ :=
    parse_display_line (J := J) (printable_formatCheckpointIndex h)
  rw [loadCheckpointIndex, formatCheckpointIndex, hvalue, CheckpointIndex.ofFile,
    parseCheckpointIndex_format h]
  exact congrArg (Except.mapError invalidJson) (parseCheckpointIndex_readAs h hread)

end Nojson

end Sukari
