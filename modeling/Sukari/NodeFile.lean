import Sukari.Json
import Sukari.Noraft
import Sukari.TreeMap

/-!
# Metadata files keyed by node

`nodes.json` and `checkpoints.json` have one shape: a version and an object whose members are keyed
by decimal node IDs. `parseNodeFile` and `formatNodeFile` are that shape, over the parser and the
formatter of an entry. `parseNodeFile_readAs` says that a value that reads as a file written from a
map is parsed into that map, up to what reading does to an entry.
-/

set_option autoImplicit false
set_option relaxedAutoImplicit false

namespace Sukari

open JsonReader

variable {V : Type} [JsonReader V] {α : Type}

/-- `key_text.parse().map(noraft::NodeId::new)`. -/
def parseNodeId (key : String) : Except JsonParseError NodeId :=
  match parseU64 key.toList with
  | some value => return UInt64.ofNat value
  | none => throw .invalidInteger

def formatNodeId (nodeId : NodeId) : String := Nat.repr nodeId.toNat

/-- One round of the loop over the members. -/
def parseNodeMember (parseEntry : V → Except JsonParseError α)
    (nodes : Std.ExtTreeMap NodeId α) (item : String × V) :
    Except JsonParseError (Std.ExtTreeMap NodeId α) := do
  let nodeId ← parseNodeId item.1
  let entry ← parseEntry item.2
  if nodes.contains nodeId then throw (.invalid "duplicate node ID")
  else return nodes.insert nodeId entry

def parseNodeFile (version : ℕ) (unsupported : String)
    (parseEntry : V → Except JsonParseError α) (value : V) :
    Except JsonParseError (Std.ExtTreeMap NodeId α) := do
  let versionValue ← requiredMember value "version"
  let fileVersion ← toU64 versionValue
  if fileVersion ≠ version then throw (.invalid unsupported)
  else
    let nodesValue ← requiredMember value "nodes"
    let members ← toObject nodesValue
    members.foldlM (parseNodeMember parseEntry) ∅

def formatNodeFile (version : ℕ) (formatEntry : α → Json) (nodes : Std.ExtTreeMap NodeId α) :
    Json :=
  .object [("version", .integer version),
    ("nodes", .object (nodes.toList.map fun item ↦ (formatNodeId item.1, formatEntry item.2)))]

/-! ### Round trip -/

theorem parseNodeId_format (nodeId : NodeId) : parseNodeId (formatNodeId nodeId) = .ok nodeId := by
  rw [parseNodeId, formatNodeId, Nat.toList_repr, parseU64_toDigits nodeId.toNat_lt]
  simp [pure, Except.pure]

theorem plain_formatNodeId (nodeId : NodeId) : Json.Plain (formatNodeId nodeId) := by
  rw [formatNodeId]
  exact plain_repr _

/-- The members of an object are read as the members that were formatted. -/
theorem requiredMember_eq {value : V} {members : List (String × V)} {name : String} {member : V}
    (h : toObject value = .ok members) (hmember : members.lookup name = some member) :
    requiredMember value name = .ok member := by
  simp only [requiredMember, toMember_eq_lookup name h, hmember, bind, Except.bind, pure,
    Except.pure]

/-- The loop inserts the entries of members that were formatted from distinct nodes. -/
theorem foldlM_parseNodeMember {parseEntry : V → Except JsonParseError α}
    {formatEntry : α → Json} (reload : α → α) {items : List (NodeId × α)}
    {members : List (String × V)} {nodes : Std.ExtTreeMap NodeId α}
    (hmembers : Json.MembersReadAs
      (items.map fun item ↦ (formatNodeId item.1, formatEntry item.2)) members)
    (hentry : ∀ item ∈ items, ∀ value : V,
      (formatEntry item.2).ReadAs value → parseEntry value = .ok (reload item.2))
    (hdistinct : (items.map Prod.fst).Nodup) (hfresh : ∀ item ∈ items, item.1 ∉ nodes) :
    ∃ nodes', members.foldlM (parseNodeMember parseEntry) nodes = .ok nodes' ∧
      ∀ nodeId entry, nodes'[nodeId]? = some entry ↔
        nodes[nodeId]? = some entry ∨ ∃ item ∈ items, item.1 = nodeId ∧ reload item.2 = entry := by
  induction items generalizing members nodes with
  | nil =>
    rw [List.map_nil, Json.MembersReadAs] at hmembers
    exact ⟨nodes, by rw [hmembers]; rfl, by simp⟩
  | cons item rest ih =>
    rw [List.map_cons, Json.MembersReadAs] at hmembers
    obtain ⟨value, members, rfl, hvalue, hmembers⟩ := hmembers
    rw [List.map_cons, List.nodup_cons] at hdistinct
    have hnew : ¬ nodes.contains item.1 := by simpa using hfresh item (by simp)
    have hstep : parseNodeMember parseEntry nodes (formatNodeId item.1, value) =
        .ok (nodes.insert item.1 (reload item.2)) := by
      simp only [parseNodeMember, parseNodeId_format, hentry item (by simp) value hvalue, bind,
        Except.bind, if_neg hnew, pure, Except.pure]
    obtain ⟨nodes', hfold, hget⟩ := @ih members (nodes.insert item.1 (reload item.2)) hmembers
      (fun item' h ↦ hentry item' (by simp [h])) hdistinct.2 (by
        intro item' h
        rw [Std.ExtTreeMap.mem_insert, not_or]
        refine ⟨fun heq ↦ hdistinct.1 ?_, hfresh item' (by simp [h])⟩
        rw [Std.LawfulEqCmp.eq_of_compare heq]
        exact List.mem_map_of_mem h)
    refine ⟨nodes', ?_, fun nodeId entry ↦ ?_⟩
    · rw [List.foldlM_cons, hstep]
      exact hfold
    · rw [hget, Std.ExtTreeMap.getElem?_insert]
      by_cases hkey : item.1 = nodeId
      · have hnone : nodes[nodeId]? = none := by
          rw [← hkey]
          simpa using hnew
        simp [hkey, hnone]
      · simp [hkey]

theorem parseNodeFile_readAs {version : ℕ} {unsupported : String}
    {parseEntry : V → Except JsonParseError α} {formatEntry : α → Json} (reload : α → α)
    {nodes : Std.ExtTreeMap NodeId α} {value : V}
    (hvalue : (formatNodeFile version formatEntry nodes).ReadAs value)
    (hentry : ∀ (nodeId : NodeId) (entry : α), nodes[nodeId]? = some entry →
      ∀ value : V, (formatEntry entry).ReadAs value → parseEntry value = .ok (reload entry)) :
    parseNodeFile version unsupported parseEntry value =
      .ok (nodes.map fun _ entry ↦ reload entry) := by
  simp only [formatNodeFile, Json.ReadAs, Json.MembersReadAs] at hvalue
  obtain ⟨_, hobject, versionValue, _, rfl, hversion, nodesValue, _, rfl, hnodesValue, rfl⟩ :=
    hvalue
  obtain ⟨members, hmembers, hread⟩ := hnodesValue
  obtain ⟨nodes', hfold, hget⟩ := @foldlM_parseNodeMember _ _ _ parseEntry formatEntry reload
    nodes.toList members ∅ hread (fun item hitem ↦ hentry item.1 item.2
      (Std.ExtTreeMap.mem_toList_iff_getElem?_eq_some.mp hitem)) (nodup_fst_toList nodes) (by simp)
  have hnodes : nodes' = nodes.map fun _ entry ↦ reload entry := by
    ext nodeId entry
    rw [hget, Std.ExtTreeMap.getElem?_map]
    simp
  have hversionValue : requiredMember value "version" = .ok versionValue :=
    requiredMember_eq hobject rfl
  have hnodesValue : requiredMember value "nodes" = .ok nodesValue := requiredMember_eq hobject rfl
  rw [← hnodes, ← hfold, parseNodeFile]
  simp only [hversionValue, hversion, hnodesValue, hmembers, bind, Except.bind, ne_eq,
    not_true_eq_false, if_false]

theorem printable_formatNodeFile {accepted : String → Prop} {version : ℕ} {formatEntry : α → Json}
    {nodes : Std.ExtTreeMap NodeId α} (hversion : version < 2 ^ 64)
    (hentry : ∀ (nodeId : NodeId) (entry : α), nodes[nodeId]? = some entry →
      (formatEntry entry).Printable accepted) :
    (formatNodeFile version formatEntry nodes).Printable accepted := by
  have hitems : ∀ items : List (NodeId × α),
      (∀ item ∈ items, (formatEntry item.2).Printable accepted) →
      Json.MembersPrintable accepted
        (items.map fun item ↦ (formatNodeId item.1, formatEntry item.2)) := by
    intro items h
    induction items with
    | nil => trivial
    | cons item rest ih =>
      rw [List.map_cons, Json.MembersPrintable]
      exact ⟨plain_formatNodeId item.1, h item (by simp), ih fun item' h' ↦ h item' (by simp [h'])⟩
  simp only [formatNodeFile, Json.Printable, Json.MembersPrintable]
  exact ⟨by decide, hversion, by decide, hitems _ fun item hitem ↦ hentry item.1 item.2
    (Std.ExtTreeMap.mem_toList_iff_getElem?_eq_some.mp hitem), trivial⟩

end Sukari
