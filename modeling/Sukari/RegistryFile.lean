import Sukari.FileTexts
import Sukari.NojsonScanner

/-!
# What the registry file keeps of metadata

`RegistryCall` are the calls that change a registry. The text of `nodes.json` for a registry that
was reached by calls has the metadata text of every node spliced in, and the value that the parser
cuts out again is stored by its source text, without the whitespace around it. So loading the text
always succeeds and keeps node IDs and flags, and it gives an equal registry exactly when no node
was created with whitespace around its metadata (`registryFile_iff`).
-/

set_option autoImplicit false
set_option relaxedAutoImplicit false

namespace Sukari

/-! ### Calls -/

inductive RegistryCall
  | createNode (nodeId : NodeId) (metadata : NodeMetadata)
  | removeNode (nodeId : NodeId)

def RegistryCall.perform (registry : NodeRegistry) : RegistryCall → Except IoError NodeRegistry
  | .createNode nodeId metadata => registry.createNode nodeId metadata
  | .removeNode nodeId => registry.removeNode nodeId

/-- The registry after the calls; a call that fails changes nothing. -/
def NodeRegistry.afterCalls (calls : List RegistryCall) : NodeRegistry :=
  calls.foldl (fun registry call ↦ (call.perform registry).toOption.getD registry) .default

/-- The metadata that a call passes for a node. -/
def RegistryCall.metadataFor (nodeId : NodeId) : RegistryCall → Option NodeMetadata
  | .createNode created metadata => if created = nodeId then some metadata else none
  | .removeNode _ => none

/-- The metadata that a node was created with: later calls for the ID are refused. -/
def createdWith (calls : List RegistryCall) (nodeId : NodeId) : Option NodeMetadata :=
  calls.findSome? (RegistryCall.metadataFor nodeId)

theorem metadata_perform (registry : NodeRegistry) (call : RegistryCall) (nodeId : NodeId) :
    ((call.perform registry).toOption.getD registry).nodes[nodeId]?.map
        NodeRegistryEntry.metadata =
      (registry.nodes[nodeId]?.map NodeRegistryEntry.metadata).or (call.metadataFor nodeId) := by
  cases call with
  | createNode created metadata =>
    simp only [RegistryCall.perform, NodeRegistry.createNode, RegistryCall.metadataFor]
    split
    · next htaken =>
      obtain ⟨entry, hentry⟩ :=
        mem_iff_exists_getElem?.mp (Std.ExtTreeMap.contains_iff_mem.mp htaken)
      split
      · next hsame => simp [throw, throwThe, MonadExceptOf.throw, Except.toOption, ← hsame, hentry]
      · simp [throw, throwThe, MonadExceptOf.throw, Except.toOption]
    · next hfree =>
      have hnone : registry.nodes[created]? = none := by simpa using hfree
      by_cases hsame : created = nodeId
      · subst hsame
        simp [pure, Except.pure, Except.toOption, hnone]
      · simp [pure, Except.pure, Except.toOption, Std.ExtTreeMap.getElem?_insert, hsame]
  | removeNode removed =>
    simp only [RegistryCall.perform, NodeRegistry.removeNode, RegistryCall.metadataFor,
      Option.or_none]
    split
    · simp [throw, throwThe, MonadExceptOf.throw, Except.toOption]
    · next entry hentry =>
      split
      · simp [throw, throwThe, MonadExceptOf.throw, Except.toOption]
      · by_cases hsame : removed = nodeId
        · subst hsame
          simp [pure, Except.pure, Except.toOption, hentry]
        · simp [pure, Except.pure, Except.toOption, Std.ExtTreeMap.getElem?_insert, hsame]

/-- The metadata of a node is the metadata that it was created with. -/
theorem metadata_afterCalls (calls : List RegistryCall) (nodeId : NodeId) :
    (NodeRegistry.afterCalls calls).nodes[nodeId]?.map NodeRegistryEntry.metadata =
      createdWith calls nodeId := by
  have hcalls (registry : NodeRegistry) :
      (calls.foldl (fun registry call ↦ (call.perform registry).toOption.getD registry)
          registry).nodes[nodeId]?.map NodeRegistryEntry.metadata =
        (registry.nodes[nodeId]?.map NodeRegistryEntry.metadata).or (createdWith calls nodeId) := by
    induction calls generalizing registry with
    | nil => simp [createdWith]
    | cons call rest ih =>
      rw [List.foldl_cons, ih, metadata_perform, Option.or_assoc]
      congr 1
      rw [createdWith, createdWith, List.findSome?_cons]
      cases call.metadataFor nodeId <;> rfl
  exact (hcalls .default).trans (by simp [NodeRegistry.default])

/-- An entry of the registry has the metadata that a node was created with. -/
theorem acceptsMetadata_afterCalls {J : Nojson} {calls : List RegistryCall}
    (h : ∀ nodeId metadata, createdWith calls nodeId = some metadata →
      J.Accepts metadata.metadata.text) : J.AcceptsMetadata (.afterCalls calls) := by
  intro nodeId entry hentry
  refine h nodeId entry.metadata ?_
  rw [← metadata_afterCalls, hentry, Option.map_some]

/-! ### The registry file -/

theorem reloaded_eq_self_iff {registry : NodeRegistry} :
    registry.reloaded = registry ↔ ∀ (nodeId : NodeId) (metadata : NodeMetadata),
      registry.nodes[nodeId]?.map NodeRegistryEntry.metadata = some metadata →
        Unpadded metadata.metadata.text := by
  have hentry (entry : NodeRegistryEntry) :
      entry.reloaded = entry ↔ Unpadded entry.metadata.metadata.text := by
    rw [← Json.trimWhitespace_eq_self_iff]
    obtain ⟨⟨startup, ⟨text⟩⟩, removed⟩ := entry
    simp [NodeRegistryEntry.reloaded]
  constructor
  · intro h nodeId metadata hmetadata
    obtain ⟨entry, hnode, rfl⟩ := Option.map_eq_some_iff.mp hmetadata
    have hsame : registry.reloaded.nodes[nodeId]? = some entry := h.symm ▸ hnode
    rw [NodeRegistry.reloaded, Std.ExtTreeMap.getElem?_map, hnode, Option.map_some,
      Option.some.injEq] at hsame
    exact (hentry entry).mp hsame
  · intro h
    obtain ⟨nodes⟩ := registry
    refine congrArg NodeRegistry.mk (Std.ExtTreeMap.ext_getElem? fun nodeId ↦ ?_)
    rw [Std.ExtTreeMap.getElem?_map]
    cases hnode : nodes[nodeId]? with
    | none => rfl
    | some entry =>
      exact congrArg some ((hentry entry).mpr (h nodeId entry.metadata (by simp [hnode])))

/-- Loading the text of the registry file gives an equal registry exactly when no node was created
with whitespace around its metadata. In any case it succeeds, keeps the node IDs and the flags, and
gives the metadata without this whitespace. The texts of the metadata are ones that
`RawJsonOwned::parse` accepted. -/
theorem registryFile_iff (J : Nojson) (calls : List RegistryCall)
    (haccepted : ∀ nodeId metadata, createdWith calls nodeId = some metadata →
      J.Accepts metadata.metadata.text) :
    (J.loadNodeRegistry (J.formatNodeRegistry (.afterCalls calls)) = .ok (.afterCalls calls) ↔
      ∀ nodeId metadata, createdWith calls nodeId = some metadata →
        Unpadded metadata.metadata.text) ∧
    ∃ loaded, J.loadNodeRegistry (J.formatNodeRegistry (.afterCalls calls)) = .ok loaded ∧
      ∀ nodeId : NodeId, loaded.nodes[nodeId]? =
        (NodeRegistry.afterCalls calls).nodes[nodeId]?.map NodeRegistryEntry.reloaded := by
  rw [Nojson.loadNodeRegistry_format (acceptsMetadata_afterCalls haccepted), Except.ok.injEq,
    reloaded_eq_self_iff]
  refine ⟨?_, _, rfl, fun nodeId ↦ ?_⟩
  · simp only [metadata_afterCalls]
  · rw [NodeRegistry.reloaded, Std.ExtTreeMap.getElem?_map]

/-- A node with the metadata text that is given, and a removed one with metadata of two lines. -/
def metadataCalls (text : String) : List RegistryCall :=
  [.createNode 1 ⟨true, ⟨text⟩⟩, .createNode 2 ⟨false, ⟨"[1,\n 2]"⟩⟩, .removeNode 2]

theorem createdWith_metadataCalls {text : String} {nodeId : NodeId} {metadata : NodeMetadata}
    (h : createdWith (metadataCalls text) nodeId = some metadata) :
    metadata.metadata.text = text ∨ metadata.metadata.text = "[1,\n 2]" := by
  simp only [createdWith, metadataCalls, List.findSome?_cons, RegistryCall.metadataFor] at h
  split_ifs at h <;> cases h <;> simp

theorem accepts_metadataCalls {text : String} (h : Nojson.scanner.Accepts text) (nodeId : NodeId)
    (metadata : NodeMetadata)
    (hcreated : createdWith (metadataCalls text) nodeId = some metadata) :
    Nojson.scanner.Accepts metadata.metadata.text := by
  obtain htext | htext := createdWith_metadataCalls hcreated
  · rwa [htext]
  · rw [htext]
    exact ⟨"[1,\n 2]", (by decide : Scanner.parse "[1,\n 2]" = .ok "[1,\n 2]")⟩

/-- With metadata `null` the registry comes back, and with a blank in front of it it does not. -/
theorem registryFile_iff_scanner :
    Nojson.scanner.loadNodeRegistry
        (Nojson.scanner.formatNodeRegistry (.afterCalls (metadataCalls "null"))) =
      .ok (.afterCalls (metadataCalls "null")) ∧
    Nojson.scanner.loadNodeRegistry
        (Nojson.scanner.formatNodeRegistry (.afterCalls (metadataCalls " null"))) ≠
      .ok (.afterCalls (metadataCalls " null")) := by
  have hplain : Nojson.scanner.Accepts "null" :=
    ⟨"null", (by decide : Scanner.parse "null" = .ok "null")⟩
  have hpadded : Nojson.scanner.Accepts " null" :=
    ⟨"null", (by decide : Scanner.parse " null" = .ok "null")⟩
  constructor
  · refine (registryFile_iff .scanner _ (accepts_metadataCalls hplain)).1.mpr ?_
    intro nodeId metadata hcreated
    obtain htext | htext := createdWith_metadataCalls hcreated <;>
      · rw [htext, ← Json.trimWhitespace_eq_self_iff]
        decide
  · intro h
    have hunpadded := (registryFile_iff .scanner _ (accepts_metadataCalls hpadded)).1.mp h 1
      ⟨true, ⟨" null"⟩⟩ (by decide)
    rw [← Json.trimWhitespace_eq_self_iff] at hunpadded
    revert hunpadded
    decide

/-- A node that was created with a blank in front of its metadata is read back without it. -/
theorem registryFile_padded : Nojson.scanner.Accepts " null" ∧ ∃ loaded : NodeRegistry,
    Nojson.scanner.loadNodeRegistry (Nojson.scanner.formatNodeRegistry
        (.afterCalls [.createNode 1 ⟨true, ⟨" null"⟩⟩])) = .ok loaded ∧
    loaded ≠ .afterCalls [.createNode 1 ⟨true, ⟨" null"⟩⟩] ∧
    loaded.nodes[(1 : NodeId)]? = some ⟨⟨true, ⟨"null"⟩⟩, false⟩ := by
  have hpadded : Nojson.scanner.Accepts " null" :=
    ⟨"null", (by decide : Scanner.parse " null" = .ok "null")⟩
  have haccepted :
      Nojson.scanner.AcceptsMetadata (.afterCalls [.createNode 1 ⟨true, ⟨" null"⟩⟩]) := by
    refine acceptsMetadata_afterCalls fun nodeId metadata hcreated ↦ ?_
    simp only [createdWith, List.findSome?_cons, RegistryCall.metadataFor] at hcreated
    split_ifs at hcreated
    · cases hcreated
      exact hpadded
    · nomatch hcreated
  have hcreated : (NodeRegistry.afterCalls [.createNode 1 ⟨true, ⟨" null"⟩⟩]).nodes[(1 : NodeId)]? =
      some ⟨⟨true, ⟨" null"⟩⟩, false⟩ := by decide
  have htrimmed : (NodeRegistry.afterCalls [.createNode 1 ⟨true, ⟨" null"⟩⟩]).reloaded.nodes[(1 :
      NodeId)]? = some ⟨⟨true, ⟨"null"⟩⟩, false⟩ := by
    rw [NodeRegistry.reloaded, Std.ExtTreeMap.getElem?_map, hcreated]
    decide
  refine ⟨hpadded, _, Nojson.loadNodeRegistry_format haccepted, fun hsame ↦ ?_, htrimmed⟩
  rw [hsame, hcreated] at htrimmed
  revert htrimmed
  decide

example : Nojson.scanner.formatNodeRegistry (.afterCalls [.createNode 1 ⟨true, ⟨" null"⟩⟩]) =
    "\x7b\n  \"version\": 1,\n  \"nodes\": \x7b\n    \"1\": \x7b\n      \"startup\": true,\n" ++
    "      \"metadata\":  null,\n      \"removed\": false\n    \x7d\n  \x7d\n\x7d\n" := by
  decide +kernel

end Sukari
