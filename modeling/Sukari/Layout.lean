import Sukari.BodyLimits
import Sukari.Codes.SelfDelimiting

/-!
# Layouts of record bodies

A record does not say in which order its body lists the members of a node ID set or the command
payloads: a body may list them in any order, and the maps and sets of the record forget it. A
`BodyLayout` is a record with these orders. It has an image, a node and a record, and it is the only
layout with its image (`BodyLayout.image_injective`). The layout of a record is the one that lists
everything in ascending order; its image is the one that the encoder writes (`image_layout`).
-/

set_option autoImplicit false
set_option relaxedAutoImplicit false

namespace Sukari

open LittleEndian

variable {N : Noraft}

/-! ### Layouts and their images -/

def nodeIdsImage (nodeIds : List NodeId) : List UInt8 :=
  toLeBytes 4 nodeIds.length ++ nodeIds.flatMap u64Image

/-- The node ID sets of a configuration as a body lists them. -/
@[ext] structure ConfigLayout where
  voters : List NodeId
  newVoters : List NodeId
  nonVoters : List NodeId

def ConfigLayout.image (config : ConfigLayout) : List UInt8 :=
  nodeIdsImage config.voters ++ (nodeIdsImage config.newVoters ++ nodeIdsImage config.nonVoters)

inductive EntryLayout
  | term (term : Term)
  | clusterConfig (config : ConfigLayout)
  | command

def EntryLayout.image : EntryLayout → List UInt8
  | .term value => 0 :: u64Image value
  | .clusterConfig config => 1 :: config.image
  | .command => [2]

/-- Log entries and the command payloads as a body lists them. -/
@[ext] structure AppendLayout where
  prevPosition : LogPosition
  entries : List EntryLayout
  commandPayloads : List (LogIndex × CommandPayload)

def AppendLayout.image (append : AppendLayout) : List UInt8 :=
  logPositionImage append.prevPosition ++
    ((toLeBytes 4 append.entries.length ++ append.entries.flatMap EntryLayout.image) ++
      (toLeBytes 4 append.commandPayloads.length ++
        append.commandPayloads.flatMap commandPayloadImage))

@[ext] structure SnapshotLayout where
  lastIncluded : LogPosition
  config : ConfigLayout
  data : Bytes

def SnapshotLayout.image (snapshot : SnapshotLayout) : List UInt8 :=
  logPositionImage snapshot.lastIncluded ++ (snapshot.config.image ++ bytesImage snapshot.data)

@[ext] structure CheckpointLayout where
  currentTerm : Term
  votedFor : Option NodeId
  snapshot : SnapshotLayout
  suffix : AppendLayout

def CheckpointLayout.image (checkpoint : CheckpointLayout) : List UInt8 :=
  u64Image checkpoint.currentTerm ++ (optionalNodeIdImage checkpoint.votedFor ++
    (checkpoint.snapshot.image ++ checkpoint.suffix.image))

inductive RecordLayout
  | currentTerm (term : Term)
  | votedFor (votedFor : Option NodeId)
  | append (append : AppendLayout)
  | snapshotCheckpoint (checkpoint : CheckpointLayout)

def RecordLayout.image : RecordLayout → List UInt8
  | .currentTerm term => 0 :: u64Image term
  | .votedFor nodeId => 1 :: optionalNodeIdImage nodeId
  | .append layout => 2 :: layout.image
  | .snapshotCheckpoint checkpoint => 3 :: checkpoint.image

@[ext] structure BodyLayout where
  nodeId : NodeId
  record : RecordLayout

def BodyLayout.image (body : BodyLayout) : List UInt8 := u64Image body.nodeId ++ body.record.image

/-! ### The record of a layout -/

def nodeIdSet (nodeIds : List NodeId) : NodeIdSet := nodeIds.foldl Std.ExtTreeSet.insert ∅

def ConfigLayout.config (config : ConfigLayout) : ClusterConfig :=
  ⟨nodeIdSet config.voters, nodeIdSet config.newVoters, nodeIdSet config.nonVoters⟩

def EntryLayout.entry : EntryLayout → LogEntry
  | .term value => .term value
  | .clusterConfig config => .clusterConfig config.config
  | .command => .command

variable (N) in
def AppendLayout.append (append : AppendLayout) : LogAppend N where
  entries := (append.entries.map EntryLayout.entry).foldl N.push (N.newEntries append.prevPosition)
  commandPayloads := append.commandPayloads.foldl (fun acc item ↦ acc.insert item.1 item.2) ∅

def SnapshotLayout.snapshot (snapshot : SnapshotLayout) : Snapshot :=
  ⟨snapshot.lastIncluded, snapshot.config.config, snapshot.data⟩

variable (N) in
def CheckpointLayout.checkpoint (checkpoint : CheckpointLayout) : SnapshotCheckpoint N :=
  ⟨checkpoint.currentTerm, checkpoint.votedFor, checkpoint.snapshot.snapshot,
    checkpoint.suffix.append N⟩

variable (N) in
def RecordLayout.toRecord : RecordLayout → Record N
  | .currentTerm term => .currentTerm term
  | .votedFor nodeId => .votedFor nodeId
  | .append layout => .append (layout.append N)
  | .snapshotCheckpoint checkpoint => .snapshotCheckpoint (checkpoint.checkpoint N)

variable (N) in
def BodyLayout.nodeRecord (body : BodyLayout) : NodeId × Record N :=
  (body.nodeId, body.record.toRecord N)

/-! ### Ascending order -/

def ConfigLayout.Ascending (config : ConfigLayout) : Prop :=
  config.voters.Pairwise (· < ·) ∧ config.newVoters.Pairwise (· < ·) ∧
    config.nonVoters.Pairwise (· < ·)

def EntryLayout.Ascending : EntryLayout → Prop
  | .clusterConfig config => config.Ascending
  | _ => True

def AppendLayout.Ascending (append : AppendLayout) : Prop :=
  (∀ entry ∈ append.entries, entry.Ascending) ∧
    append.commandPayloads.Pairwise fun item item' ↦ item.1 < item'.1

def RecordLayout.Ascending : RecordLayout → Prop
  | .append layout => layout.Ascending
  | .snapshotCheckpoint checkpoint =>
    checkpoint.snapshot.config.Ascending ∧ checkpoint.suffix.Ascending
  | _ => True

/-- Every node ID set and every list of command payloads in the body is in ascending order. -/
def BodyLayout.Ascending (body : BodyLayout) : Prop := body.record.Ascending

/-! ### A body has one layout -/

section Injective

open Codes

/-- Bodies that are longer than this are not records, and no count in a shorter one overflows. -/
def layoutBound : ℕ := 2 ^ 32

theorem selfDelimiting_u64Image : SelfDelimiting layoutBound u64Image := by
  refine .fixed 8 length_u64Image fun first second hsame ↦ ?_
  have hread (value : UInt64) : fromLeBytes (u64Image value) = value.toNat :=
    fromLeBytes_toLeBytes (by simpa using value.toNat_lt)
  rw [← UInt64.toNat_inj, ← hread first, ← hread second, hsame]

theorem count_injective (first second : ℕ) (rest rest' : List UInt8) (hfirst : first < layoutBound)
    (hsecond : second < layoutBound)
    (h : toLeBytes 4 first ++ rest = toLeBytes 4 second ++ rest') :
    first = second ∧ rest = rest' := by
  obtain ⟨hcount, hrest⟩ := List.append_inj h (by simp)
  refine ⟨?_, hrest⟩
  rw [← @fromLeBytes_toLeBytes 4 _ hfirst, ← @fromLeBytes_toLeBytes 4 _ hsecond, hcount]

theorem selfDelimiting_nodeIdsImage : SelfDelimiting layoutBound nodeIdsImage :=
  selfDelimiting_u64Image.counted (by simp) count_injective

theorem selfDelimiting_bytesImage : SelfDelimiting layoutBound bytesImage := by
  intro first second rest rest' hfirst hsecond hsame
  simp only [bytesImage, List.length_append, List.append_assoc] at hfirst hsecond hsame
  obtain ⟨hlength, hbytes⟩ := count_injective _ _ _ _ (by omega) (by omega) hsame
  exact List.append_inj hbytes hlength

theorem selfDelimiting_logPositionImage : SelfDelimiting layoutBound logPositionImage := by
  refine (selfDelimiting_u64Image.pair selfDelimiting_u64Image).comap
    (fun position : LogPosition ↦ (position.term, position.index)) fun first second hsame ↦ ?_
  cases first
  cases second
  simp_all

theorem selfDelimiting_optionalNodeIdImage : SelfDelimiting layoutBound optionalNodeIdImage := by
  intro first second rest rest' hfirst hsecond hsame
  rcases first with _ | nodeId <;> rcases second with _ | nodeId'
  · exact ⟨rfl, (List.cons.inj hsame).2⟩
  · nomatch (List.cons.inj hsame).1
  · nomatch (List.cons.inj hsame).1
  · obtain ⟨rfl, hrest⟩ := selfDelimiting_u64Image.tagged hfirst hsecond hsame
    exact ⟨rfl, hrest⟩

theorem selfDelimiting_configImage : SelfDelimiting layoutBound ConfigLayout.image := by
  refine (selfDelimiting_nodeIdsImage.pair
    (selfDelimiting_nodeIdsImage.pair selfDelimiting_nodeIdsImage)).comap
      (fun config : ConfigLayout ↦ (config.voters, config.newVoters, config.nonVoters))
        fun first second hsame ↦ ?_
  simp only [Prod.mk.injEq] at hsame
  exact ConfigLayout.ext hsame.1 hsame.2.1 hsame.2.2

theorem selfDelimiting_entryImage : SelfDelimiting layoutBound EntryLayout.image := by
  intro first second rest rest' hfirst hsecond hsame
  cases first with
  | term value =>
    cases second with
    | term value' =>
      obtain ⟨rfl, hrest⟩ := selfDelimiting_u64Image.tagged hfirst hsecond hsame
      exact ⟨rfl, hrest⟩
    | clusterConfig | command => nomatch (List.cons.inj hsame).1
  | clusterConfig config =>
    cases second with
    | clusterConfig config' =>
      obtain ⟨rfl, hrest⟩ := selfDelimiting_configImage.tagged hfirst hsecond hsame
      exact ⟨rfl, hrest⟩
    | term | command => nomatch (List.cons.inj hsame).1
  | command =>
    cases second with
    | command => exact ⟨rfl, (List.cons.inj hsame).2⟩
    | term | clusterConfig => nomatch (List.cons.inj hsame).1

theorem selfDelimiting_commandPayloadImage : SelfDelimiting layoutBound commandPayloadImage := by
  have htag : SelfDelimiting layoutBound fun tag : UInt8 ↦ [tag] :=
    .fixed 1 (fun _ ↦ rfl) fun _ _ hsame ↦ List.singleton_injective hsame
  refine ((selfDelimiting_u64Image.pair htag).pair selfDelimiting_bytesImage).comap
    (fun item : LogIndex × CommandPayload ↦ ((item.1, item.2.tag), item.2.bytes))
      fun first second hsame ↦ ?_
  obtain ⟨index, tag, bytes⟩ := first
  obtain ⟨index', tag', bytes'⟩ := second
  simp_all

theorem selfDelimiting_appendImage : SelfDelimiting layoutBound AppendLayout.image := by
  have hentries := selfDelimiting_entryImage.counted
    (fun entry ↦ by cases entry <;> simp [EntryLayout.image]) count_injective
  have hpayloads := selfDelimiting_commandPayloadImage.counted
    (fun item ↦ by simp [commandPayloadImage]) count_injective
  refine (selfDelimiting_logPositionImage.pair (hentries.pair hpayloads)).comap
    (fun append : AppendLayout ↦ (append.prevPosition, append.entries, append.commandPayloads))
      fun first second hsame ↦ ?_
  simp only [Prod.mk.injEq] at hsame
  exact AppendLayout.ext hsame.1 hsame.2.1 hsame.2.2

theorem selfDelimiting_checkpointImage : SelfDelimiting layoutBound CheckpointLayout.image := by
  have hsnapshot : SelfDelimiting layoutBound SnapshotLayout.image := by
    refine (selfDelimiting_logPositionImage.pair
      (selfDelimiting_configImage.pair selfDelimiting_bytesImage)).comap
        (fun snapshot : SnapshotLayout ↦ (snapshot.lastIncluded, snapshot.config, snapshot.data))
          fun first second hsame ↦ ?_
    simp only [Prod.mk.injEq] at hsame
    exact SnapshotLayout.ext hsame.1 hsame.2.1 hsame.2.2
  refine (selfDelimiting_u64Image.pair (selfDelimiting_optionalNodeIdImage.pair
    (hsnapshot.pair selfDelimiting_appendImage))).comap
      (fun checkpoint : CheckpointLayout ↦
        (checkpoint.currentTerm, checkpoint.votedFor, checkpoint.snapshot, checkpoint.suffix))
          fun first second hsame ↦ ?_
  simp only [Prod.mk.injEq] at hsame
  exact CheckpointLayout.ext hsame.1 hsame.2.1 hsame.2.2.1 hsame.2.2.2

theorem selfDelimiting_recordImage : SelfDelimiting layoutBound RecordLayout.image := by
  intro first second rest rest' hfirst hsecond hsame
  cases first with
  | currentTerm term =>
    cases second with
    | currentTerm term' =>
      obtain ⟨rfl, hrest⟩ := selfDelimiting_u64Image.tagged hfirst hsecond hsame
      exact ⟨rfl, hrest⟩
    | votedFor | append | snapshotCheckpoint => nomatch (List.cons.inj hsame).1
  | votedFor nodeId =>
    cases second with
    | votedFor nodeId' =>
      obtain ⟨rfl, hrest⟩ := selfDelimiting_optionalNodeIdImage.tagged hfirst hsecond hsame
      exact ⟨rfl, hrest⟩
    | currentTerm | append | snapshotCheckpoint => nomatch (List.cons.inj hsame).1
  | append layout =>
    cases second with
    | append layout' =>
      obtain ⟨rfl, hrest⟩ := selfDelimiting_appendImage.tagged hfirst hsecond hsame
      exact ⟨rfl, hrest⟩
    | currentTerm | votedFor | snapshotCheckpoint => nomatch (List.cons.inj hsame).1
  | snapshotCheckpoint layout =>
    cases second with
    | snapshotCheckpoint layout' =>
      obtain ⟨rfl, hrest⟩ := selfDelimiting_checkpointImage.tagged hfirst hsecond hsame
      exact ⟨rfl, hrest⟩
    | currentTerm | votedFor | append => nomatch (List.cons.inj hsame).1

/-- No two layouts of records have the same image. -/
theorem BodyLayout.image_injective {first second : BodyLayout}
    (hlimit : first.image.length < layoutBound) (hsame : first.image = second.image) :
    first = second := by
  have hbody : SelfDelimiting layoutBound BodyLayout.image := by
    refine (selfDelimiting_u64Image.pair selfDelimiting_recordImage).comap
      (fun body : BodyLayout ↦ (body.nodeId, body.record)) fun first second hsame ↦ ?_
    simp only [Prod.mk.injEq] at hsame
    exact BodyLayout.ext hsame.1 hsame.2
  exact hbody.injective hlimit hsame

end Injective

/-! ### The layout of a record -/

def ClusterConfig.layout (config : ClusterConfig) : ConfigLayout :=
  ⟨config.voters.toList, config.newVoters.toList, config.nonVoters.toList⟩

def LogEntry.layout : LogEntry → EntryLayout
  | .term value => .term value
  | .clusterConfig config => .clusterConfig config.layout
  | .command => .command

def LogAppend.layout (append : LogAppend N) : AppendLayout :=
  ⟨N.prevPosition append.entries, (N.iter append.entries).map LogEntry.layout,
    append.commandPayloads.toList⟩

def Snapshot.layout (snapshot : Snapshot) : SnapshotLayout :=
  ⟨snapshot.lastIncluded, snapshot.config.layout, snapshot.data⟩

def SnapshotCheckpoint.layout (checkpoint : SnapshotCheckpoint N) : CheckpointLayout :=
  ⟨checkpoint.currentTerm, checkpoint.votedFor, checkpoint.snapshot.layout,
    checkpoint.suffix.layout⟩

def Record.layout : Record N → RecordLayout
  | .currentTerm value => .currentTerm value
  | .votedFor nodeId => .votedFor nodeId
  | .append value => .append value.layout
  | .snapshotCheckpoint checkpoint => .snapshotCheckpoint checkpoint.layout

def bodyLayout (nodeId : NodeId) (record : Record N) : BodyLayout := ⟨nodeId, record.layout⟩

theorem nodeIdsImage_toList (nodes : NodeIdSet) :
    nodeIdsImage nodes.toList = nodeIdSetImage nodes := by
  rw [nodeIdsImage, nodeIdSetImage, Std.ExtTreeSet.length_toList]

theorem ClusterConfig.image_layout (config : ClusterConfig) :
    config.layout.image = clusterConfigImage config := by
  simp only [ConfigLayout.image, layout, nodeIdsImage_toList, clusterConfigImage, List.append_assoc]

theorem LogEntry.image_layout (entry : LogEntry) : entry.layout.image = logEntryImage entry := by
  cases entry with
  | clusterConfig config => exact congrArg (List.cons 1) config.image_layout
  | term | command => rfl

theorem LogAppend.image_layout (append : LogAppend N) :
    append.layout.image = logAppendImage append := by
  have hentries : ((N.iter append.entries).map LogEntry.layout).flatMap EntryLayout.image =
      (N.iter append.entries).flatMap logEntryImage := by
    rw [List.flatMap_map, funext LogEntry.image_layout]
  simp only [AppendLayout.image, layout, hentries, List.length_map, Std.ExtTreeMap.length_toList,
    logAppendImage, logEntriesImage, Noraft.len, List.append_assoc]

theorem SnapshotCheckpoint.image_layout (checkpoint : SnapshotCheckpoint N) :
    checkpoint.layout.image = snapshotCheckpointImage checkpoint := by
  simp only [CheckpointLayout.image, layout, SnapshotLayout.image, Snapshot.layout,
    ClusterConfig.image_layout, LogAppend.image_layout, snapshotCheckpointImage, snapshotImage,
    List.append_assoc]

/-- The encoder writes the image of the layout of a record. -/
theorem image_layout (nodeId : NodeId) (record : Record N) :
    (bodyLayout nodeId record).image = bodyImage nodeId record := by
  refine congrArg (u64Image nodeId ++ ·) ?_
  cases record with
  | append append => exact congrArg (List.cons 2) append.image_layout
  | snapshotCheckpoint checkpoint => exact congrArg (List.cons 3) checkpoint.image_layout
  | currentTerm | votedFor => rfl

theorem ClusterConfig.ascending_layout (config : ClusterConfig) : config.layout.Ascending := by
  have htoList (nodes : NodeIdSet) : nodes.toList.Pairwise (· < ·) :=
    nodes.ordered_toList.imp Std.compare_eq_lt.mp
  exact ⟨htoList _, htoList _, htoList _⟩

theorem LogEntry.ascending_layout (entry : LogEntry) : entry.layout.Ascending := by
  cases entry with
  | clusterConfig config => exact config.ascending_layout
  | term | command => trivial

theorem LogAppend.ascending_layout (append : LogAppend N) : append.layout.Ascending := by
  refine ⟨fun entry hentry ↦ ?_, ?_⟩
  · obtain ⟨entry, -, rfl⟩ := List.mem_map.mp hentry
    exact entry.ascending_layout
  · exact append.commandPayloads.ordered_keys_toList.imp Std.compare_eq_lt.mp

/-- The layout of a record is in ascending order. -/
theorem ascending_layout (nodeId : NodeId) (record : Record N) :
    (bodyLayout nodeId record).Ascending := by
  cases record with
  | append append => exact append.ascending_layout
  | snapshotCheckpoint checkpoint =>
    exact ⟨checkpoint.snapshot.config.ascending_layout, checkpoint.suffix.ascending_layout⟩
  | currentTerm | votedFor => trivial

/-! ### What the decoder accepts -/

def NodeIdsValid (nodeIds : List NodeId) : Prop := nodeIds.Nodup ∧ nodeIds.length ≤ maxCountItems

def ConfigLayout.Valid (config : ConfigLayout) : Prop :=
  NodeIdsValid config.voters ∧ NodeIdsValid config.newVoters ∧ NodeIdsValid config.nonVoters

def EntryLayout.Valid : EntryLayout → Prop
  | .clusterConfig config => config.Valid
  | _ => True

/-- No index is listed twice, and the entries stay within the log indexes. -/
structure AppendLayout.Valid (N : Noraft) (append : AppendLayout) : Prop where
  entries : append.entries.length ≤ maxCountItems
  entry : ∀ entry ∈ append.entries, entry.Valid
  indexes : append.prevPosition.index.toNat + append.entries.length < 2 ^ 64
  payloads : append.commandPayloads.length ≤ maxCountItems
  distinct : (append.commandPayloads.map Prod.fst).Nodup
  validate : (append.append N).validate = .ok ()

structure CheckpointLayout.Valid (N : Noraft) (checkpoint : CheckpointLayout) : Prop where
  config : checkpoint.snapshot.config.Valid
  suffix : checkpoint.suffix.Valid N
  validate : (checkpoint.checkpoint N).validate = .ok ()

/-- What the format asks of a layout. -/
def RecordLayout.Valid (N : Noraft) : RecordLayout → Prop
  | .append layout => layout.Valid N
  | .snapshotCheckpoint checkpoint => checkpoint.Valid N
  | _ => True

section NodeIds

variable {nodeIds : List NodeId}

theorem NodeIdsValid.perm (h : NodeIdsValid nodeIds) : (nodeIdSet nodeIds).toList.Perm nodeIds :=
  perm_toList_foldl_insert h.1

theorem NodeIdsValid.size_le (h : NodeIdsValid nodeIds) :
    (nodeIdSet nodeIds).size ≤ maxCountItems := by
  rw [← Std.ExtTreeSet.length_toList, h.perm.length_eq]
  exact h.2

theorem NodeIdsValid.length_image (h : NodeIdsValid nodeIds) :
    (nodeIdsImage (nodeIdSet nodeIds).toList).length = (nodeIdsImage nodeIds).length := by
  rw [nodeIdsImage, nodeIdsImage, List.length_append, List.length_append,
    (h.perm.flatMap_right u64Image).length_eq, length_toLeBytes, length_toLeBytes]

theorem toList_nodeIdSet (h : nodeIds.Pairwise (· < ·)) : (nodeIdSet nodeIds).toList = nodeIds := by
  have hnodup : nodeIds.Nodup := h.imp UInt64.ne_of_lt
  refine List.Perm.eq_of_pairwise (fun _ _ _ _ hlt hgt ↦ absurd hlt (UInt64.lt_asymm hgt)) ?_ h
    (perm_toList_foldl_insert hnodup)
  exact (nodeIdSet nodeIds).ordered_toList.imp Std.compare_eq_lt.mp

end NodeIds

theorem ConfigLayout.Valid.config {config : ConfigLayout} (h : config.Valid) :
    ClusterConfigValid config.config :=
  ⟨h.1.size_le, h.2.1.size_le, h.2.2.size_le⟩

theorem ConfigLayout.Valid.length_image {config : ConfigLayout} (h : config.Valid) :
    config.config.layout.image.length = config.image.length := by
  simp only [ConfigLayout.image, ClusterConfig.layout, ConfigLayout.config, List.length_append,
    h.1.length_image, h.2.1.length_image, h.2.2.length_image]

theorem ConfigLayout.layout_config {config : ConfigLayout} (h : config.Ascending) :
    config.config.layout = config :=
  ConfigLayout.ext (toList_nodeIdSet h.1) (toList_nodeIdSet h.2.1) (toList_nodeIdSet h.2.2)

theorem EntryLayout.Valid.entry {entry : EntryLayout} (h : entry.Valid) :
    LogEntryValid entry.entry := by
  cases entry with
  | clusterConfig config => exact ConfigLayout.Valid.config h
  | term | command => trivial

theorem EntryLayout.Valid.length_image {entry : EntryLayout} (h : entry.Valid) :
    entry.entry.layout.image.length = entry.image.length := by
  cases entry with
  | clusterConfig config => exact congrArg Nat.succ (ConfigLayout.Valid.length_image h)
  | term | command => rfl

theorem EntryLayout.layout_entry {entry : EntryLayout} (h : entry.Ascending) :
    entry.entry.layout = entry := by
  cases entry with
  | clusterConfig config => exact congrArg EntryLayout.clusterConfig (config.layout_config h)
  | term | command => rfl

namespace AppendLayout

variable {layout : AppendLayout}

theorem Valid.prevPosition_append (h : layout.Valid N) :
    N.prevPosition (layout.append N).entries = layout.prevPosition := by
  have hpushed := N.foldl_push (layout.entries.map EntryLayout.entry)
    (N.newEntries layout.prevPosition)
      (by simpa [N.prevPosition_new, N.iter_newEntries] using h.indexes)
  exact hpushed.1.trans (N.prevPosition_new _)

theorem Valid.iter_append (h : layout.Valid N) :
    N.iter (layout.append N).entries = layout.entries.map EntryLayout.entry := by
  have hpushed := N.foldl_push (layout.entries.map EntryLayout.entry)
    (N.newEntries layout.prevPosition)
      (by simpa [N.prevPosition_new, N.iter_newEntries] using h.indexes)
  exact hpushed.2.trans (by rw [N.iter_newEntries, List.nil_append])

theorem Valid.perm (h : layout.Valid N) :
    (layout.append N).commandPayloads.toList.Perm layout.commandPayloads :=
  perm_toList_foldl_insertItem h.distinct

theorem Valid.append (h : layout.Valid N) : LogAppendValid (layout.append N) := by
  refine ⟨h.validate, ?_, ?_, ?_⟩
  · rw [Noraft.len, h.iter_append, List.length_map]
    exact h.entries
  · intro entry hentry
    rw [h.iter_append] at hentry
    obtain ⟨entry, hmem, rfl⟩ := List.mem_map.mp hentry
    exact (h.entry entry hmem).entry
  · rw [← Std.ExtTreeMap.length_toList, h.perm.length_eq]
    exact h.payloads

theorem Valid.length_image (h : layout.Valid N) :
    (layout.append N).layout.image.length = layout.image.length := by
  have hentries : (((N.iter (layout.append N).entries).map LogEntry.layout).flatMap
      EntryLayout.image).length = (layout.entries.flatMap EntryLayout.image).length := by
    rw [h.iter_append, List.length_flatMap, List.length_flatMap, List.map_map, List.map_map]
    refine congrArg List.sum (List.map_congr_left fun entry hmem ↦ ?_)
    exact (h.entry entry hmem).length_image
  have hpayloads := (h.perm.flatMap_right commandPayloadImage).length_eq
  simp only [image, LogAppend.layout, List.length_append, length_toLeBytes, hentries, hpayloads,
    logPositionImage, length_u64Image]

theorem Valid.layout_append (h : layout.Valid N) (hascending : layout.Ascending) :
    (layout.append N).layout = layout := by
  refine AppendLayout.ext h.prevPosition_append ?_ ?_
  · refine (congrArg (List.map LogEntry.layout) h.iter_append).trans ?_
    rw [List.map_map]
    refine (List.map_congr_left fun entry hmem ↦ ?_).trans layout.entries.map_id
    exact EntryLayout.layout_entry (hascending.1 entry hmem)
  · refine List.Perm.eq_of_pairwise (fun _ _ _ _ hlt hgt ↦ absurd hlt (UInt64.lt_asymm hgt)) ?_
      hascending.2 h.perm
    exact (layout.append N).commandPayloads.ordered_keys_toList.imp Std.compare_eq_lt.mp

end AppendLayout

theorem CheckpointLayout.Valid.length_image {checkpoint : CheckpointLayout}
    (h : checkpoint.Valid N) :
    (checkpoint.checkpoint N).layout.image.length = checkpoint.image.length := by
  have hconfig := h.config.length_image
  have hsuffix := h.suffix.length_image
  simp only [image, SnapshotLayout.image, SnapshotCheckpoint.layout, Snapshot.layout,
    CheckpointLayout.checkpoint, SnapshotLayout.snapshot, List.length_append, hconfig, hsuffix]

namespace RecordLayout

variable {record : RecordLayout}

theorem Valid.toRecord (h : record.Valid N) : RecordValid (record.toRecord N) := by
  cases record with
  | append layout => exact AppendLayout.Valid.append h
  | snapshotCheckpoint checkpoint => exact ⟨h.validate, h.config.config, h.suffix.append⟩
  | currentTerm | votedFor => trivial

theorem Valid.length_image (h : record.Valid N) :
    (record.toRecord N).layout.image.length = record.image.length := by
  cases record with
  | append layout => exact congrArg Nat.succ (AppendLayout.Valid.length_image h)
  | snapshotCheckpoint checkpoint =>
    exact congrArg Nat.succ (CheckpointLayout.Valid.length_image h)
  | currentTerm | votedFor => rfl

theorem Valid.layout_toRecord (h : record.Valid N) (hascending : record.Ascending) :
    (record.toRecord N).layout = record := by
  cases record with
  | append layout =>
    exact congrArg RecordLayout.append (AppendLayout.Valid.layout_append h hascending)
  | snapshotCheckpoint checkpoint =>
    have hconfig := ConfigLayout.layout_config hascending.1
    have hsuffix := h.suffix.layout_append hascending.2
    refine congrArg RecordLayout.snapshotCheckpoint (CheckpointLayout.ext rfl rfl ?_ hsuffix)
    exact SnapshotLayout.ext rfl hconfig rfl
  | currentTerm | votedFor => rfl

end RecordLayout

/-- The encoder writes a valid layout back exactly when it is in ascending order. -/
theorem BodyLayout.bodyImage_eq_iff {body : BodyLayout} (h : body.record.Valid N)
    (hlimit : body.image.length < layoutBound) :
    bodyImage body.nodeId (body.record.toRecord N) = body.image ↔ body.Ascending := by
  rw [← image_layout]
  constructor
  · intro hsame
    have hlayout := BodyLayout.image_injective (by rwa [hsame]) hsame
    exact hlayout ▸ ascending_layout body.nodeId (body.record.toRecord N)
  · intro hascending
    have hlayout : bodyLayout body.nodeId (body.record.toRecord N) = body :=
      BodyLayout.ext rfl (h.layout_toRecord hascending)
    rw [hlayout]

theorem BodyLayout.length_bodyImage {body : BodyLayout} (h : body.record.Valid N) :
    (bodyImage body.nodeId (body.record.toRecord N)).length = body.image.length := by
  rw [← image_layout, image, image, List.length_append, List.length_append, bodyLayout,
    h.length_image]

end Sukari
