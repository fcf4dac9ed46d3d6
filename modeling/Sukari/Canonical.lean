import Sukari.Layout

/-!
# What the decoder accepts can be written back

`Finds action shape` is the converse of `Reads`: where the action succeeds, there are bytes of the
shape in front of it and it stops behind them. Composed along the grammar of the format, this says
that every body the decoder accepts is the image of a valid layout (`decodeNodeRecord_finds`). The
encoder writes the record of the layout back, in as many bytes, and byte for byte the same exactly
when the layout is in ascending order (`encode_decodeNodeRecord`).
-/

set_option autoImplicit false
set_option relaxedAutoImplicit false

namespace Sukari

open LittleEndian Decoder

variable {N : Noraft}

/-! ### Finding a shape -/

/-- Wherever the action succeeds, its value and the bytes it has read are of the shape. -/
def Finds {α : Type} (action : DecoderM α) (shape : α → List UInt8 → Prop) : Prop :=
  ∀ before rest value decoder, action ⟨before ++ rest, before.length⟩ = (.ok value, decoder) →
    ∃ image after, rest = image ++ after ∧
      decoder = ⟨before ++ image ++ after, (before ++ image).length⟩ ∧ shape value image

namespace Finds

variable {α β σ ι : Type} {shape : α → List UInt8 → Prop} {shape' : β → List UInt8 → Prop}

theorem pure {value : α} (h : shape value []) : Finds (Pure.pure value) shape := by
  intro before rest value' decoder hrun
  obtain ⟨hvalue, rfl⟩ := Prod.mk.inj hrun
  obtain rfl := Except.ok.inj hvalue
  exact ⟨[], rest, rfl, by simp, h⟩

theorem throw {error : IoError} : Finds (throw error : DecoderM α) shape := by
  intro before rest value decoder hrun
  nomatch (Prod.mk.inj hrun).1

/-- Two actions in sequence: the shape of both is asked of the second one behind the first. -/
theorem bind {action : DecoderM α} {f : α → DecoderM β} (h : Finds action shape)
    (h' : ∀ value image, shape value image →
      Finds (f value) fun value' image' ↦ shape' value' (image ++ image')) :
    Finds (action >>= f) shape' := by
  intro before rest value' decoder hrun
  rw [bind_apply] at hrun
  rcases hfirst : action ⟨before ++ rest, before.length⟩ with ⟨error | value, decoder'⟩
  · rw [hfirst] at hrun
    nomatch (Prod.mk.inj hrun).1
  · rw [hfirst] at hrun
    obtain ⟨image, rest', rfl, rfl, hshape⟩ := h before rest value decoder' hfirst
    obtain ⟨image', after, rfl, rfl, hshape'⟩ := h' value image hshape _ _ _ _ hrun
    exact ⟨image ++ image', after, by simp, by simp, hshape'⟩

theorem mono {shape'' : α → List UInt8 → Prop} {action : DecoderM α} (h : Finds action shape)
    (himp : ∀ value image, shape value image → shape'' value image) : Finds action shape'' := by
  intro before rest value decoder hrun
  obtain ⟨image, after, hrest, hdecoder, hshape⟩ := h before rest value decoder hrun
  exact ⟨image, after, hrest, hdecoder, himp value image hshape⟩

/-- An action on the value that another one finds. -/
theorem map {action : DecoderM α} {f : α → β} (h : Finds action shape)
    (himp : ∀ value image, shape value image → shape' (f value) image) :
    Finds (do return f (← action)) shape' :=
  h.bind fun value image hshape ↦ pure (by simpa using himp value image hshape)

/-- A check in front of an action. -/
theorem checked {condition : Prop} [Decidable condition] {error : IoError} {action : DecoderM α}
    (h : ¬ condition → Finds action shape) : Finds (do failIf condition error; action) shape := by
  intro before rest value decoder hrun
  rw [bind_apply, failIf_apply] at hrun
  by_cases hcondition : condition
  · rw [if_pos hcondition] at hrun
    nomatch (Prod.mk.inj hrun).1
  · rw [if_neg hcondition] at hrun
    exact h hcondition before rest value decoder hrun

/-- A counted loop finds as many items, one after the other, when every round finds an item that
its accumulator can take. -/
theorem repeatM {step : σ → DecoderM σ} {image : ι → List UInt8} {next : σ → ι → σ}
    (fits : σ → List ι → Prop) (hnil : ∀ acc, fits acc [])
    (hstep : ∀ acc, Finds (step acc) fun acc' bytes ↦ ∃ item, next acc item = acc' ∧
      image item = bytes ∧ ∀ rest, fits acc' rest → fits acc (item :: rest))
    (count : ℕ) (acc : σ) :
    Finds (Sukari.repeatM step count acc) fun acc' bytes ↦ ∃ items, items.length = count ∧
      fits acc items ∧ items.foldl next acc = acc' ∧ items.flatMap image = bytes := by
  induction count generalizing acc with
  | zero => exact pure ⟨[], rfl, hnil acc, rfl, rfl⟩
  | succ count ih =>
    refine (hstep acc).bind ?_
    rintro acc' bytes ⟨item, rfl, rfl, hfits⟩
    refine (ih _).mono ?_
    rintro acc'' bytes' ⟨items, rfl, hitems, rfl, rfl⟩
    exact ⟨item :: items, rfl, hfits items hitems, rfl, rfl⟩

end Finds

theorem take_finds (len : ℕ) :
    Finds (take len) fun value image ↦ value = image ∧ image.length = len := by
  intro before rest value decoder hrun
  simp only [take, bind_apply, get_apply, failIf_apply] at hrun
  by_cases hoverflow : 2 ^ 64 ≤ before.length + len
  · rw [if_pos hoverflow] at hrun
    cases (Prod.mk.inj hrun).1
  · by_cases hshort : (before ++ rest).length < before.length + len
    · rw [if_neg hoverflow] at hrun
      simp only [if_pos hshort] at hrun
      cases (Prod.mk.inj hrun).1
    · simp only [if_neg hoverflow, if_neg hshort, set_apply, pure_apply, List.drop_left] at hrun
      obtain ⟨hvalue, rfl⟩ := Prod.mk.inj hrun
      obtain rfl := Except.ok.inj hvalue
      have hlength : (rest.take len).length = len := by
        rw [List.length_append] at hshort
        rw [List.length_take]
        omega
      refine ⟨rest.take len, rest.drop len, (List.take_append_drop len rest).symm, ?_, rfl, hlength⟩
      rw [List.append_assoc, List.take_append_drop, List.length_append, hlength]

theorem getU8_finds : Finds getU8 fun value image ↦ image = [value] := by
  refine (take_finds 1).map ?_
  rintro value image ⟨rfl, hlength⟩
  obtain ⟨byte, rfl⟩ := List.length_eq_one_iff.mp hlength
  rfl

theorem getU32_finds : Finds getU32 fun value image ↦ image = toLeBytes 4 value := by
  refine (take_finds 4).map ?_
  rintro value image ⟨rfl, hlength⟩
  rw [← hlength, toLeBytes_fromLeBytes]

theorem getU64_finds : Finds getU64 fun value image ↦ image = u64Image value := by
  refine (take_finds 8).map ?_
  rintro value image ⟨rfl, hlength⟩
  have hword : fromLeBytes value < 2 ^ 64 := by
    simpa [hlength] using fromLeBytes_lt value
  rw [u64Image, UInt64.toNat_ofNat_of_lt' hword, ← hlength, toLeBytes_fromLeBytes]

theorem getBytes_finds : Finds getBytes fun value image ↦ image = bytesImage value := by
  refine getU32_finds.bind ?_
  rintro len image rfl
  refine Finds.checked fun _ ↦ (take_finds len).mono ?_
  rintro value image ⟨rfl, rfl⟩
  rfl

theorem decodeCount_finds (error : String) : Finds (decodeCount error) fun value image ↦
    value ≤ maxCountItems ∧ image = toLeBytes 4 value := by
  refine getU32_finds.bind ?_
  rintro value image rfl
  exact Finds.checked fun hlimit ↦ .pure ⟨Nat.not_lt.mp hlimit, List.append_nil _⟩

/-! ### The decoders of the format -/

theorem decodeLogPosition_finds :
    Finds decodeLogPosition fun position image ↦ image = logPositionImage position := by
  refine getU64_finds.bind ?_
  rintro term image rfl
  refine getU64_finds.map ?_
  rintro index image rfl
  rfl

theorem decodeOptionalNodeId_finds :
    Finds decodeOptionalNodeId fun nodeId image ↦ image = optionalNodeIdImage nodeId := by
  refine getU8_finds.bind ?_
  rintro tag image rfl
  split
  · exact .pure rfl
  · refine getU64_finds.map ?_
    rintro nodeId image rfl
    rfl
  · exact .throw

theorem decodeNodeIdSet_finds : Finds decodeNodeIdSet fun nodes image ↦
    ∃ nodeIds, NodeIdsValid nodeIds ∧ nodeIdSet nodeIds = nodes ∧ nodeIdsImage nodeIds = image := by
  have hloop (count : ℕ) : Finds (repeatM decodeNodeIdInto count ∅) fun nodes image ↦
      ∃ nodeIds : List NodeId, nodeIds.length = count ∧
        (nodeIds.Nodup ∧ ∀ nodeId ∈ nodeIds, nodeId ∉ (∅ : NodeIdSet)) ∧
          nodeIdSet nodeIds = nodes ∧ nodeIds.flatMap u64Image = image := by
    refine Finds.repeatM (fun nodes nodeIds ↦ nodeIds.Nodup ∧ ∀ nodeId ∈ nodeIds, nodeId ∉ nodes)
      (by simp) (fun nodes ↦ getU64_finds.bind ?_) count ∅
    rintro nodeId image rfl
    refine Finds.checked fun hfresh ↦ .pure ⟨nodeId, rfl, (List.append_nil _).symm, ?_⟩
    rintro rest ⟨hnodup, hrest⟩
    simp only [Std.ExtTreeSet.mem_insert, not_or, Std.compare_eq_iff_eq] at hrest
    refine ⟨List.nodup_cons.mpr ⟨fun hmem ↦ (hrest nodeId hmem).1 rfl, hnodup⟩, ?_⟩
    rintro nodeId' (_ | ⟨_, hmem⟩)
    · simpa using hfresh
    · exact (hrest nodeId' hmem).2
  refine (decodeCount_finds _).bind ?_
  rintro count image ⟨hcount, rfl⟩
  refine (hloop count).mono ?_
  rintro nodes image ⟨nodeIds, rfl, ⟨hnodup, -⟩, rfl, rfl⟩
  exact ⟨nodeIds, ⟨hnodup, hcount⟩, rfl, rfl⟩

theorem decodeClusterConfig_finds : Finds decodeClusterConfig fun config image ↦
    ∃ layout : ConfigLayout, layout.Valid ∧ layout.config = config ∧ layout.image = image := by
  refine decodeNodeIdSet_finds.bind ?_
  rintro _ _ ⟨voters, hvoters, rfl, rfl⟩
  refine decodeNodeIdSet_finds.bind ?_
  rintro _ _ ⟨newVoters, hnewVoters, rfl, rfl⟩
  refine decodeNodeIdSet_finds.map ?_
  rintro _ _ ⟨nonVoters, hnonVoters, rfl, rfl⟩
  exact ⟨⟨voters, newVoters, nonVoters⟩, ⟨hvoters, hnewVoters, hnonVoters⟩, rfl, rfl⟩

theorem decodeLogEntry_finds : Finds decodeLogEntry fun entry image ↦
    ∃ layout : EntryLayout, layout.Valid ∧ layout.entry = entry ∧ layout.image = image := by
  refine getU8_finds.bind ?_
  rintro tag image rfl
  split
  · refine getU64_finds.map ?_
    rintro value image rfl
    exact ⟨.term value, trivial, rfl, rfl⟩
  · refine decodeClusterConfig_finds.map ?_
    rintro _ _ ⟨config, hvalid, rfl, rfl⟩
    exact ⟨.clusterConfig config, hvalid, rfl, rfl⟩
  · exact .pure ⟨.command, trivial, rfl, rfl⟩
  · exact .throw

/-- The entries of an append, which the payloads are behind. -/
theorem decodeLogEntries_finds : Finds (decodeLogEntries N) fun entries image ↦
    ∃ (prevPosition : LogPosition) (layouts : List EntryLayout),
      (∀ layout ∈ layouts, layout.Valid) ∧ layouts.length ≤ maxCountItems ∧
      prevPosition.index.toNat + layouts.length < 2 ^ 64 ∧
      (layouts.map EntryLayout.entry).foldl N.push (N.newEntries prevPosition) = entries ∧
      logPositionImage prevPosition ++ (toLeBytes 4 layouts.length ++
        layouts.flatMap EntryLayout.image) = image := by
  have hloop (count : ℕ) (acc : N.LogEntries) :
      Finds (repeatM decodeLogEntryInto count acc) fun entries image ↦
        ∃ layouts : List EntryLayout, layouts.length = count ∧ (∀ layout ∈ layouts, layout.Valid) ∧
          layouts.foldl (fun acc layout ↦ N.push acc layout.entry) acc = entries ∧
            layouts.flatMap EntryLayout.image = image := by
    refine Finds.repeatM (fun _ (layouts : List EntryLayout) ↦ ∀ layout ∈ layouts, layout.Valid)
      (by simp)
      (fun acc ↦ decodeLogEntry_finds.map ?_) count acc
    rintro _ _ ⟨layout, hvalid, rfl, rfl⟩
    refine ⟨layout, rfl, rfl, fun rest hrest ↦ ?_⟩
    simpa using ⟨hvalid, hrest⟩
  refine decodeLogPosition_finds.bind ?_
  rintro prevPosition image rfl
  refine (decodeCount_finds _).bind ?_
  rintro count image ⟨hcount, rfl⟩
  refine Finds.checked fun hroom ↦ (hloop count _).mono ?_
  rintro entries image ⟨layouts, rfl, hvalid, rfl, rfl⟩
  refine ⟨prevPosition, layouts, hvalid, hcount, ?_, by rw [List.foldl_map], rfl⟩
  have hmax : maxCountItems < 2 ^ 64 := by decide
  have hword : (UInt64.ofNat layouts.length).toNat = layouts.length :=
    UInt64.toNat_ofNat_of_lt' (hcount.trans_lt hmax)
  simp only [LogIndex.checkedAdd, hword] at hroom
  by_contra hover
  exact hroom (by rw [if_neg hover, Option.isNone_none])

theorem decodeLogAppend_finds : Finds (decodeLogAppend N) fun append image ↦
    ∃ layout : AppendLayout, layout.Valid N ∧ layout.append N = append ∧ layout.image = image := by
  have hloop (count : ℕ) : Finds (repeatM decodeCommandPayloadInto count ∅) fun payloads image ↦
      ∃ items : List (LogIndex × CommandPayload), items.length = count ∧
        ((items.map Prod.fst).Nodup ∧ ∀ item ∈ items, item.1 ∉ (∅ : CommandPayloads)) ∧
          items.foldl (fun acc item ↦ acc.insert item.1 item.2) ∅ = payloads ∧
            items.flatMap commandPayloadImage = image := by
    refine Finds.repeatM (fun payloads items ↦ (items.map Prod.fst).Nodup ∧
      ∀ item ∈ items, item.1 ∉ payloads) (by simp) (fun payloads ↦ getU64_finds.bind ?_) count ∅
    rintro index image rfl
    refine getU8_finds.bind ?_
    rintro tag image rfl
    refine getBytes_finds.bind ?_
    rintro bytes image rfl
    refine Finds.checked fun hfresh ↦ .pure ⟨(index, ⟨tag, bytes⟩), rfl, ?_, ?_⟩
    · simp [commandPayloadImage]
    · rintro rest ⟨hnodup, hrest⟩
      simp only [Std.ExtTreeMap.mem_insert, not_or, Std.compare_eq_iff_eq] at hrest
      refine ⟨List.nodup_cons.mpr ⟨fun hmem ↦ ?_, hnodup⟩, ?_⟩
      · obtain ⟨item, hitem, hindex⟩ := List.mem_map.mp hmem
        exact (hrest item hitem).1 hindex.symm
      · rintro item (_ | ⟨_, hmem⟩)
        · simpa using hfresh
        · exact (hrest item hmem).2
  refine decodeLogEntries_finds.bind ?_
  rintro _ _ ⟨prevPosition, layouts, hvalid, hlayouts, hindexes, rfl, rfl⟩
  refine (decodeCount_finds _).bind ?_
  rintro count image ⟨hcount, rfl⟩
  refine (hloop count).bind ?_
  rintro _ _ ⟨items, rfl, ⟨hdistinct, -⟩, rfl, rfl⟩
  split
  · next append happend =>
    obtain ⟨_, hvalidate, happend⟩ := bind_eq_ok_iff.mp happend
    obtain rfl := Except.ok.inj happend
    exact .pure ⟨⟨prevPosition, layouts, items⟩,
      ⟨hlayouts, hvalid, hindexes, hcount, hdistinct, hvalidate⟩, rfl, by simp [AppendLayout.image]⟩
  · exact .throw

theorem decodeSnapshot_finds : Finds decodeSnapshot fun snapshot image ↦
    ∃ layout : SnapshotLayout, layout.config.Valid ∧ layout.snapshot = snapshot ∧
      layout.image = image := by
  refine decodeLogPosition_finds.bind ?_
  rintro lastIncluded image rfl
  refine decodeClusterConfig_finds.bind ?_
  rintro _ _ ⟨config, hvalid, rfl, rfl⟩
  refine getBytes_finds.map ?_
  rintro data image rfl
  exact ⟨⟨lastIncluded, config, data⟩, hvalid, rfl, rfl⟩

theorem decodeSnapshotCheckpoint_finds : Finds (decodeSnapshotCheckpoint N) fun checkpoint image ↦
    ∃ layout : CheckpointLayout, layout.Valid N ∧ layout.checkpoint N = checkpoint ∧
      layout.image = image := by
  refine getU64_finds.bind ?_
  rintro currentTerm image rfl
  refine decodeOptionalNodeId_finds.bind ?_
  rintro votedFor image rfl
  refine decodeSnapshot_finds.bind ?_
  rintro _ _ ⟨snapshot, hconfig, rfl, rfl⟩
  refine decodeLogAppend_finds.bind ?_
  rintro _ _ ⟨suffix, hsuffix, rfl, rfl⟩
  dsimp only
  split
  · next hvalidate =>
    exact .pure ⟨⟨currentTerm, votedFor, snapshot, suffix⟩, ⟨hconfig, hsuffix, hvalidate⟩, rfl,
      by simp [CheckpointLayout.image]⟩
  · exact .throw

theorem decodeRecord_finds : Finds (decodeRecord N) fun record image ↦
    ∃ layout : RecordLayout, layout.Valid N ∧ layout.toRecord N = record ∧
      layout.image = image := by
  refine getU8_finds.bind ?_
  rintro tag image rfl
  split
  · refine getU64_finds.map ?_
    rintro term image rfl
    exact ⟨.currentTerm term, trivial, rfl, rfl⟩
  · refine decodeOptionalNodeId_finds.map ?_
    rintro nodeId image rfl
    exact ⟨.votedFor nodeId, trivial, rfl, rfl⟩
  · refine decodeLogAppend_finds.map ?_
    rintro _ _ ⟨layout, hvalid, rfl, rfl⟩
    exact ⟨.append layout, hvalid, rfl, rfl⟩
  · refine decodeSnapshotCheckpoint_finds.map ?_
    rintro _ _ ⟨layout, hvalid, rfl, rfl⟩
    exact ⟨.snapshotCheckpoint layout, hvalid, rfl, rfl⟩
  · exact .throw

/-- A body that the decoder accepts is the image of a valid layout of its record. -/
theorem decodeNodeRecord_finds {body : List UInt8} {nodeRecord : NodeId × Record N}
    (h : decodeNodeRecord N body = .ok nodeRecord) :
    ∃ layout : BodyLayout, layout.record.Valid N ∧ layout.nodeRecord N = nodeRecord ∧
      layout.image = body := by
  simp only [decodeNodeRecord, bind_apply] at h
  rcases hnodeId : decodeNodeId (.new body) with ⟨_ | nodeId, decoder⟩
  · simp only [hnodeId] at h
    cases h
  obtain ⟨_, rest, rfl, rfl, rfl⟩ := getU64_finds [] body nodeId decoder hnodeId
  simp only [hnodeId, List.nil_append] at h
  rcases hrecord : decodeRecord N ⟨u64Image nodeId ++ rest, (u64Image nodeId).length⟩ with
    ⟨_ | record, decoder⟩
  · simp only [hrecord] at h
    cases h
  obtain ⟨_, after, rfl, rfl, layout, hvalid, rfl, rfl⟩ :=
    decodeRecord_finds (u64Image nodeId) rest record decoder hrecord
  simp only [hrecord, finish, bind_apply, get_apply, failIf_apply, pure_apply] at h
  by_cases hend : (u64Image nodeId ++ layout.image).length ≠
      (u64Image nodeId ++ layout.image ++ after).length
  · rw [if_pos hend] at h
    cases h
  · rw [if_neg hend] at h
    obtain rfl : after = [] := by simpa using hend
    exact ⟨⟨nodeId, layout⟩, hvalid, Except.ok.inj h, by simp [BodyLayout.image]⟩

/-- The only layout with the bytes, and the record of the bytes. -/
structure LayoutOf (N : Noraft) (body : List UInt8) (nodeRecord : NodeId × Record N)
    (layout : BodyLayout) : Prop where
  image : layout.image = body
  nodeRecord : layout.nodeRecord N = nodeRecord
  unique : ∀ other : BodyLayout, other.image = body → other = layout

/-- What the decoder accepts, the encoder writes back in the same number of bytes, and in the same
bytes exactly when the body lists every node ID set and all command payloads in ascending order. -/
theorem encode_decodeNodeRecord (body : List UInt8) (nodeId : NodeId) (record : Record N)
    (hlimit : body.length ≤ maxRecordBodyLen)
    (h : decodeNodeRecord N body = .ok (nodeId, record)) :
    ∃ encoded, encodeRecordFrame nodeId record = .ok (frameHeader encoded ++ encoded) ∧
      encoded.length = body.length ∧ decodeNodeRecord N encoded = .ok (nodeId, record) ∧
        ∃ layout, LayoutOf N body (nodeId, record) layout ∧
          (encoded = body ↔ layout.Ascending) := by
  obtain ⟨layout, hvalid, hnodeRecord, rfl⟩ := decodeNodeRecord_finds h
  obtain ⟨rfl, rfl⟩ := Prod.mk.inj hnodeRecord
  have hbound : layout.image.length < layoutBound := hlimit.trans_lt (by decide)
  have hlength : (bodyImage layout.nodeId (layout.record.toRecord N)).length =
      layout.image.length :=
    layout.length_bodyImage hvalid
  let frame : Frame N :=
    ⟨layout.nodeId, layout.record.toRecord N, hvalid.toRecord, hlength.trans_le hlimit⟩
  refine ⟨frame.body, encodeRecordFrame_eq_ok_iff.mpr ⟨frame, rfl, rfl, rfl⟩, hlength,
    frame.decodeNodeRecord_body, layout, ⟨rfl, rfl, ?_⟩, layout.bodyImage_eq_iff hvalid hbound⟩
  exact fun other hother ↦ BodyLayout.image_injective (by rwa [hother]) hother

/-- A configuration whose voters are listed in descending order. -/
def descendingVoters : BodyLayout :=
  ⟨1, .append ⟨.zero, [.clusterConfig ⟨[3, 2], [], []⟩], []⟩⟩

/-- It is decoded, and written back in ascending order. -/
theorem encode_decodeNodeRecord_descending :
    ∃ encoded, encodeRecordFrame 1 (descendingVoters.record.toRecord Noraft.ofLists) =
        .ok (frameHeader encoded ++ encoded) ∧ encoded.length = descendingVoters.image.length ∧
      encoded ≠ descendingVoters.image := by
  obtain ⟨encoded, hencode, hlength, -, layout, hlayout, hascending⟩ :=
    encode_decodeNodeRecord descendingVoters.image 1
      (descendingVoters.record.toRecord Noraft.ofLists) (by decide) rfl
  refine ⟨encoded, hencode, hlength, fun hsame ↦ ?_⟩
  have hvoters : descendingVoters.Ascending := by
    rw [hlayout.unique descendingVoters rfl]
    exact hascending.mp hsame
  simp [BodyLayout.Ascending, descendingVoters, RecordLayout.Ascending, AppendLayout.Ascending,
    EntryLayout.Ascending, ConfigLayout.Ascending] at hvoters

end Sukari
