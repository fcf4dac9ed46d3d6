import Sukari.NodeFile
import Sukari.Segment

/-!
# The node registry

Which node IDs were created and which of them were removed, and the file `nodes.json`. Reading the
file back keeps every entry except for the whitespace around its metadata
(`parseNodeRegistry_readAs`).
-/

set_option autoImplicit false
set_option relaxedAutoImplicit false

namespace Sukari

/-- Application-defined metadata for a Raft node. -/
structure NodeMetadata where
  startup : Bool
  metadata : RawJsonOwned
  deriving DecidableEq

structure NodeRegistryEntry where
  metadata : NodeMetadata
  removed : Bool
  deriving DecidableEq

structure NodeRegistry where
  nodes : Std.ExtTreeMap NodeId NodeRegistryEntry

def nodeNotFoundError : IoError := ⟨.notFound, .text "node storage has not been created"⟩
def nodeRemovedError : IoError := ⟨.notFound, .text "node storage has been removed"⟩
def nodeAlreadyExistsError : IoError :=
  ⟨.alreadyExists, .text "node storage has already been created"⟩

def nodeRegistryVersion : ℕ := 1

section Format

variable {V : Type} [JsonReader V]

def parseNodeRegistryEntry (value : V) : Except JsonParseError NodeRegistryEntry := do
  let startup ← JsonReader.toBool (← requiredMember value "startup")
  let metadata := JsonReader.toRawJsonOwned (← requiredMember value "metadata")
  let removed ← JsonReader.toBool (← requiredMember value "removed")
  return ⟨⟨startup, metadata⟩, removed⟩

/-- `NodeRegistryEntryJson`. -/
def formatNodeRegistryEntry (entry : NodeRegistryEntry) : Json :=
  .object [("startup", .boolean entry.metadata.startup),
    ("metadata", .raw entry.metadata.metadata.text), ("removed", .boolean entry.removed)]

def parseNodeRegistry (value : V) : Except JsonParseError NodeRegistry := do
  let nodes ← parseNodeFile nodeRegistryVersion "unsupported node registry version"
    parseNodeRegistryEntry value
  return ⟨nodes⟩

/-- The document that `format_node_registry` prints. -/
def formatNodeRegistry (registry : NodeRegistry) : Json :=
  formatNodeFile nodeRegistryVersion formatNodeRegistryEntry registry.nodes

end Format

namespace NodeRegistry

/-- `NodeRegistry::default`. -/
def default : NodeRegistry := ⟨∅⟩

/-- What `load` makes of the content of the file. -/
def ofFile : Option Json → Except IoError NodeRegistry
  | none => return .default
  | some document =>
    match parseNodeRegistry document with
    | .ok registry => return registry
    | .error error => throw (invalidJson error)

def load : IoM NodeRegistry := do
  let document : Option Json ← io (.readJson .nodes)
  liftM (ofFile document)

def save (registry : NodeRegistry) : IoM Unit := do
  let _ : Unit ← io (.replaceJson .nodes (formatNodeRegistry registry))
  syncDir

def createNode (registry : NodeRegistry) (nodeId : NodeId) (metadata : NodeMetadata) :
    Except IoError NodeRegistry :=
  if registry.nodes.contains nodeId then throw nodeAlreadyExistsError
  else return ⟨registry.nodes.insert nodeId ⟨metadata, false⟩⟩

def removeNode (registry : NodeRegistry) (nodeId : NodeId) : Except IoError NodeRegistry :=
  match registry.nodes[nodeId]? with
  | none => throw nodeNotFoundError
  | some entry =>
    if entry.removed then throw nodeRemovedError
    else return ⟨registry.nodes.insert nodeId { entry with removed := true }⟩

def isActive (registry : NodeRegistry) (nodeId : NodeId) : Bool :=
  registry.nodes[nodeId]?.any fun entry ↦ !entry.removed

def isRemoved (registry : NodeRegistry) (nodeId : NodeId) : Bool :=
  registry.nodes[nodeId]?.any fun entry ↦ entry.removed

def activeNodeIds (registry : NodeRegistry) : NodeIdSet :=
  ((registry.nodes.filter fun _ entry ↦ !entry.removed).keys).foldl Std.ExtTreeSet.insert ∅

end NodeRegistry

/-- `ensure_node_exists`. -/
def ensureNodeExists (registry : NodeRegistry) (nodeId : NodeId) : Except IoError Unit :=
  if registry.isActive nodeId then return ()
  else if registry.isRemoved nodeId then throw nodeRemovedError
  else throw nodeNotFoundError

/-! ### The registry file -/

/-- What saving and loading the registry does to an entry: the metadata loses the whitespace around
its value. -/
def NodeRegistryEntry.reloaded (entry : NodeRegistryEntry) : NodeRegistryEntry :=
  ⟨⟨entry.metadata.startup, ⟨Json.trimWhitespace entry.metadata.metadata.text⟩⟩, entry.removed⟩

def NodeRegistry.reloaded (registry : NodeRegistry) : NodeRegistry :=
  ⟨registry.nodes.map fun _ entry ↦ entry.reloaded⟩

theorem parseNodeRegistryEntry_readAs {V : Type} [JsonReader V] {entry : NodeRegistryEntry}
    {value : V} (h : (formatNodeRegistryEntry entry).ReadAs value) :
    parseNodeRegistryEntry value = .ok entry.reloaded := by
  simp only [formatNodeRegistryEntry, Json.ReadAs, Json.MembersReadAs] at h
  obtain ⟨_, hobject, startup, _, rfl, hstartup, metadata, _, rfl, hmetadata, removed, _, rfl,
    hremoved, rfl⟩ := h
  have hstartupValue : requiredMember value "startup" = .ok startup := requiredMember_eq hobject rfl
  have hmetadataValue : requiredMember value "metadata" = .ok metadata :=
    requiredMember_eq hobject rfl
  have hremovedValue : requiredMember value "removed" = .ok removed := requiredMember_eq hobject rfl
  simp only [parseNodeRegistryEntry, hstartupValue, hstartup, hmetadataValue, hmetadata,
    hremovedValue, hremoved, bind, Except.bind, pure, Except.pure, NodeRegistryEntry.reloaded]

/-- A value that reads as the file of a registry is parsed into the registry. -/
theorem parseNodeRegistry_readAs {V : Type} [JsonReader V] {registry : NodeRegistry} {value : V}
    (h : (formatNodeRegistry registry).ReadAs value) :
    parseNodeRegistry value = .ok registry.reloaded := by
  rw [parseNodeRegistry, parseNodeFile_readAs NodeRegistryEntry.reloaded h fun _ _ _ _ hentry ↦
    parseNodeRegistryEntry_readAs hentry]
  rfl

theorem printable_formatNodeRegistry {accepted : String → Prop} {registry : NodeRegistry}
    (h : ∀ (nodeId : NodeId) (entry : NodeRegistryEntry), registry.nodes[nodeId]? = some entry →
      accepted entry.metadata.metadata.text) :
    (formatNodeRegistry registry).Printable accepted := by
  refine printable_formatNodeFile (by decide) fun nodeId entry hentry ↦ ?_
  simp only [formatNodeRegistryEntry, Json.Printable, Json.MembersPrintable]
  exact ⟨by decide, trivial, by decide, h nodeId entry hentry, by decide, trivial, trivial⟩

/-- The registry file returns the registry that was saved. -/
theorem parseNodeRegistry_format (registry : NodeRegistry) :
    parseNodeRegistry (formatNodeRegistry registry) = .ok registry.reloaded :=
  parseNodeRegistry_readAs
    (Json.readAs_self (@printable_formatNodeRegistry (fun _ ↦ True) _ fun _ _ _ ↦ trivial))

namespace NodeRegistry

theorem isActive_iff {registry : NodeRegistry} {nodeId : NodeId} :
    registry.isActive nodeId = true ↔
      ∃ entry, registry.nodes[nodeId]? = some entry ∧ entry.removed = false := by
  rw [isActive, Option.any_eq_true]
  simp only [Bool.not_eq_true']

@[simp] theorem isActive_default (nodeId : NodeId) : default.isActive nodeId = false := by
  simp [isActive, default]

@[simp] theorem isActive_reloaded (registry : NodeRegistry) (nodeId : NodeId) :
    registry.reloaded.isActive nodeId = registry.isActive nodeId := by
  simp [isActive, reloaded, NodeRegistryEntry.reloaded, Option.any_map]

@[simp] theorem mem_activeNodeIds {registry : NodeRegistry} {nodeId : NodeId} :
    nodeId ∈ registry.activeNodeIds ↔ registry.isActive nodeId = true := by
  rw [activeNodeIds, mem_foldl_insert, Std.ExtTreeMap.mem_keys, isActive_iff,
    Std.ExtTreeMap.mem_iff_isSome_getElem?, Option.isSome_iff_exists]
  simp [Std.ExtTreeMap.getElem?_filter, Option.filter_eq_some_iff]

/-- Creating a node adds it to the active ones. -/
theorem isActive_createNode {registry registry' : NodeRegistry} {nodeId : NodeId}
    {metadata : NodeMetadata} (h : registry.createNode nodeId metadata = .ok registry')
    (other : NodeId) :
    registry'.isActive other = (registry.isActive other || nodeId == other) := by
  unfold createNode at h
  split at h
  · nomatch h
  · rw [← Except.ok.inj h]
    by_cases hsame : nodeId = other
    · simp [isActive, hsame]
    · simp [isActive, Std.ExtTreeMap.getElem?_insert, hsame]

/-- Removing a node takes it from the active ones. -/
theorem isActive_removeNode {registry registry' : NodeRegistry} {nodeId : NodeId}
    (h : registry.removeNode nodeId = .ok registry') (other : NodeId) :
    registry'.isActive other = (registry.isActive other && nodeId != other) := by
  unfold removeNode at h
  split at h
  · nomatch h
  · split at h
    · nomatch h
    · rw [← Except.ok.inj h]
      by_cases hsame : nodeId = other
      · simp [isActive, hsame]
      · simp [isActive, Std.ExtTreeMap.getElem?_insert, hsame]

theorem removeNode_of_isActive {registry : NodeRegistry} {nodeId : NodeId}
    (h : registry.isActive nodeId = true) :
    ∃ registry', registry.removeNode nodeId = .ok registry' := by
  obtain ⟨entry, hentry, hremoved⟩ := isActive_iff.mp h
  exact ⟨_, by simp only [removeNode, hentry, hremoved]; rfl⟩

end NodeRegistry

theorem ensureNodeExists_eq_ok_iff {registry : NodeRegistry} {nodeId : NodeId} :
    ensureNodeExists registry nodeId = .ok () ↔ registry.isActive nodeId = true := by
  unfold ensureNodeExists
  split
  · simp_all [pure, Except.pure]
  · split <;> simp_all [throw, throwThe, MonadExceptOf.throw]

end Sukari
