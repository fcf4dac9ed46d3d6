import Sukari.DecoderSteps
import Sukari.Effects.Fallible
import Sukari.RecordFormat

/-!
# Decoding stays within its bounds

Whatever bytes the decoder is given, it never panics, its position stays inside the input and never
goes back, and every operation that could leave its bounds is made within them: slices inside the
input, conversions of exactly four or eight bytes, at most a million rounds in every loop, and no
push behind the largest log index (`decoding_within`). `Follows` says this of a decoder that makes
its steps visible, and that it returns what the decoder of `Sukari.Codec` returns.
-/

set_option autoImplicit false
set_option relaxedAutoImplicit false

namespace Sukari

open LittleEndian Effects

variable {N : Noraft}

/-- The operation is within the bounds of an input of `len` bytes. -/
def DecodingOp.Within (len : ℕ) : DecodingOp N → Prop
  | .decoder => True
  | .slice start stop => start ≤ stop ∧ stop ≤ len
  | .advance stop => stop ≤ len
  | .first bytes => bytes.length = 1
  | .array width bytes => (width = 4 ∨ width = 8) ∧ bytes.length = width
  | .round index => index < maxCountItems
  | .push entries _ => (N.lastPosition entries).index.toNat ≠ 2 ^ 64 - 1

def Decoder.InBounds (decoder : Decoder) : Prop := decoder.position ≤ decoder.bytes.length

/-- Operations within bounds keep the input and never take the position back. -/
def decodingBounds (N : Noraft) : Refinement (decodingMachine N) Decoder where
  step exchange decoder decoder' := DecodingOp.Within decoder.bytes.length exchange.1 ∧
    decoder'.bytes = decoder.bytes ∧ decoder.position ≤ decoder'.position
  holds decoder decoder' := decoder' = decoder ∧ decoder.InBounds

/-- The program is within bounds and ends as the action does, with a value that satisfies `post`. -/
def Follows {α : Type} (post : α → Prop) (program : Decoding N α) (action : DecoderM α) : Prop :=
  ∀ decoder : Decoder, decoder.InBounds → (decodingBounds N).Refines
    (fun result decoder' decoder'' ↦ decoder'' = decoder' ∧ decoder'.InBounds ∧
      ∃ result', action decoder = (result', decoder') ∧ result = result'.mapError Stop.error ∧
        ∀ value, result' = .ok value → post value) program.run decoder decoder

/-! ### Operations within bounds -/

section Operations

variable {α : Type} {decoder : Decoder}

/-- The program returns the value and leaves the decoder as it is. -/
def Returns (program : Decoding N α) (decoder : Decoder) (value : α) : Prop :=
  (decodingBounds N).Refines (fun result decoder' decoder'' ↦ result = .ok value ∧
    decoder' = decoder ∧ decoder'' = decoder) program.run decoder decoder

theorem returns_decoder (hbounds : decoder.InBounds) :
    Returns (Decoding.decoder : Decoding N Decoder) decoder decoder :=
  ⟨fun _ h ↦ (List.not_mem_nil h).elim, decoder, ⟨trivial, rfl, le_rfl⟩, ⟨rfl, hbounds⟩,
    rfl, rfl, rfl⟩

theorem returns_round (hbounds : decoder.InBounds) {index : ℕ} (h : index < maxCountItems) :
    Returns (Decoding.round index : Decoding N Unit) decoder () :=
  ⟨fun _ h ↦ (List.not_mem_nil h).elim, decoder, ⟨h, rfl, le_rfl⟩, ⟨rfl, hbounds⟩, rfl, rfl, rfl⟩

/-- An operation that could panic does not when it is within its bounds. -/
theorem returns_expect (op : DecodingOp N) (reply : (decoding N).Reply op → Option α) {value : α}
    (hbounds : decoder.InBounds) (hwithin : op.Within decoder.bytes.length)
    (hafter : (decodingMachine N).after op decoder = decoder)
    (hreply : reply ((decodingMachine N).reply op decoder) = some value) :
    Returns (do Decoding.expect (reply (← Decoding.request op))) decoder value := by
  refine ⟨fun _ h ↦ (List.not_mem_nil h).elim, decoder, ⟨hwithin, rfl, le_rfl⟩,
    ⟨hafter, hbounds⟩, ?_⟩
  rw [hafter]
  change (decodingBounds N).Refines _ (Decoding.expect (reply _)).run decoder decoder
  rw [hreply]
  exact ⟨rfl, rfl, rfl⟩

theorem returns_slice (hbounds : decoder.InBounds) {start stop : ℕ}
    (h : start ≤ stop ∧ stop ≤ decoder.bytes.length) :
    Returns (Decoding.slice start stop : Decoding N _) decoder
      ((decoder.bytes.drop start).take (stop - start)) :=
  returns_expect (.slice start stop) id hbounds h rfl (if_pos h)

theorem returns_first (hbounds : decoder.InBounds) {bytes : List UInt8} (h : bytes.length = 1) :
    Returns (Decoding.first bytes : Decoding N UInt8) decoder (bytes.headD 0) := by
  obtain ⟨byte, rfl⟩ := List.length_eq_one_iff.mp h
  exact returns_expect (.first [byte]) id hbounds h rfl rfl

theorem returns_array (hbounds : decoder.InBounds) {width : ℕ} {bytes : List UInt8}
    (hwidth : width = 4 ∨ width = 8) (h : bytes.length = width) :
    Returns (Decoding.array width bytes : Decoding N (List UInt8)) decoder bytes :=
  returns_expect (.array width bytes) id hbounds ⟨hwidth, h⟩ rfl (if_pos h)

theorem returns_push (hbounds : decoder.InBounds) {entries : N.LogEntries} {entry : LogEntry}
    (h : (N.lastPosition entries).index.toNat ≠ 2 ^ 64 - 1) :
    Returns (Decoding.push entries entry) decoder (N.push entries entry) := by
  have hroom : (N.lastPosition entries).index.toNat + 1 < 2 ^ 64 := by
    have hword := (N.lastPosition entries).index.toNat_lt
    omega
  exact returns_expect (.push entries entry) id hbounds h rfl (if_pos hroom)

end Operations

/-! ### Rules -/

namespace Follows

open Decoding

variable {α β σ : Type} {post : α → Prop} {post' : β → Prop}

theorem pure {value : α} (h : post value) :
    Follows post (Pure.pure value : Decoding N α) (Pure.pure value) := by
  intro decoder hbounds
  refine ⟨rfl, hbounds, .ok value, rfl, rfl, ?_⟩
  rintro _ ⟨⟩
  exact h

theorem fail {error : IoError} :
    Follows post (Decoding.fail error : Decoding N α) (throw error) := by
  intro decoder hbounds
  exact ⟨rfl, hbounds, .error error, rfl, rfl, fun _ h ↦ nomatch h⟩

theorem bind {program : Decoding N α} {action : DecoderM α} {f : α → Decoding N β}
    {g : α → DecoderM β} (h : Follows post program action)
    (h' : ∀ value, post value → Follows post' (f value) (g value)) :
    Follows post' (program >>= f) (action >>= g) := by
  intro decoder hbounds
  refine .bindExcept ((h decoder hbounds).mono ?_)
  rintro result _ decoder' ⟨rfl, hbounds', result', hrun, rfl, hpost⟩
  rw [bind_apply, hrun]
  cases result' with
  | ok value => exact h' value (hpost value rfl) decoder' hbounds'
  | error error => exact ⟨rfl, hbounds', .error error, rfl, rfl, fun _ h ↦ nomatch h⟩

theorem mono {post'' : α → Prop} {program : Decoding N α} {action : DecoderM α}
    (h : Follows post program action) (himp : ∀ value, post value → post'' value) :
    Follows post'' program action := by
  intro decoder hbounds
  refine (h decoder hbounds).mono ?_
  rintro result _ decoder' ⟨rfl, hbounds', result', hrun, hresult, hpost⟩
  exact ⟨rfl, hbounds', result', hrun, hresult, fun value hvalue ↦ himp value (hpost value hvalue)⟩

theorem map {program : Decoding N α} {action : DecoderM α} {f : α → β}
    (h : Follows post program action) (himp : ∀ value, post value → post' (f value)) :
    Follows post' (do return f (← program)) (do return f (← action)) :=
  h.bind fun value hvalue ↦ pure (himp value hvalue)

/-- A check in front of a program. -/
theorem checked {condition : Prop} [Decidable condition] {error : IoError} {program : Decoding N α}
    {action : DecoderM α} (h : ¬ condition → Follows post program action) :
    Follows post (do Decoding.failIf condition error; program)
      (do Sukari.failIf condition error; action) := by
  by_cases hcondition : condition
  · have hprogram : (do Decoding.failIf condition error; program : Decoding N α) =
        Decoding.fail error := by
      rw [Decoding.failIf, if_pos hcondition]
      rfl
    have haction : (do Sukari.failIf condition error; action : DecoderM α) = throw error := by
      rw [Sukari.failIf, if_pos hcondition]
      rfl
    rw [hprogram, haction]
    exact fail
  · have hprogram : (do Decoding.failIf condition error; program : Decoding N α) = program := by
      rw [Decoding.failIf, if_neg hcondition]
      rfl
    have haction : (do Sukari.failIf condition error; action : DecoderM α) = action := by
      rw [Sukari.failIf, if_neg hcondition]
      rfl
    rw [hprogram, haction]
    exact h hcondition

/-- A program that leaves the decoder as it is, behind one that the action follows. -/
theorem returning {program : Decoding N α} {action : DecoderM α} {f : α → Decoding N β} {g : α → β}
    (h : Follows post program action) (hreturns : ∀ value, post value → ∀ decoder : Decoder,
      decoder.InBounds → Returns (f value) decoder (g value))
    (hpost : ∀ value, post value → post' (g value)) :
    Follows post' (program >>= f) (do return g (← action)) := by
  refine h.bind fun value hvalue decoder hbounds ↦ ?_
  refine (hreturns value hvalue decoder hbounds).mono ?_
  rintro _ _ decoder ⟨rfl, rfl, rfl⟩
  refine ⟨rfl, hbounds, .ok (g value), rfl, rfl, ?_⟩
  rintro _ ⟨⟩
  exact hpost value hvalue

/-- A counted loop within the limit keeps what every round keeps. -/
theorem repeatM {step : σ → Decoding N σ} {step' : σ → DecoderM σ} (invariant : ℕ → σ → Prop)
    {index count : ℕ} {acc : σ} (hlimit : index + count ≤ maxCountItems)
    (hstep : ∀ round acc, round < index + count → invariant round acc →
      Follows (invariant (round + 1)) (step acc) (step' acc)) (hacc : invariant index acc) :
    Follows (invariant (index + count)) (Decoding.repeatM step index count acc)
      (Sukari.repeatM step' count acc) := by
  induction count generalizing index acc with
  | zero => exact pure hacc
  | succ count ih =>
    intro decoder hbounds
    refine .bindExcept ((returns_round hbounds (by omega)).mono ?_)
    rintro _ _ decoder ⟨rfl, rfl, rfl⟩
    refine (hstep index acc (by omega) hacc).bind (fun acc' hacc' ↦ ?_) decoder hbounds
    have hrest := ih (by omega) (fun round acc hround ↦ hstep round acc (by omega)) hacc'
    rwa [Nat.add_right_comm] at hrest

end Follows

/-! ### The methods of the decoder -/

theorem take_follows (len : ℕ) :
    Follows (fun slice : List UInt8 ↦ slice.length = len) (Decoding.take len : Decoding N _)
      (Decoder.take len) := by
  intro decoder hbounds
  refine .bindExcept ((returns_decoder hbounds).mono ?_)
  rintro _ _ decoder ⟨rfl, rfl, rfl⟩
  simp only [Decoder.take, bind_apply, get_apply, Sukari.failIf_apply, set_apply, pure_apply]
  by_cases hoverflow : 2 ^ 64 ≤ decoder.position + len
  · simp only [Decoding.failIf, if_pos hoverflow]
    exact ⟨rfl, hbounds, _, rfl, rfl, fun _ h ↦ by cases h⟩
  · by_cases hshort : decoder.bytes.length < decoder.position + len
    · simp only [Decoding.failIf, if_neg hoverflow, if_pos hshort]
      exact ⟨rfl, hbounds, _, rfl, rfl, fun _ h ↦ by cases h⟩
    · simp only [Decoding.failIf, if_neg hoverflow, if_neg hshort, pure_bind]
      have hstop : decoder.position + len ≤ decoder.bytes.length := Nat.not_lt.mp hshort
      refine .bindExcept ((returns_slice hbounds ⟨Nat.le_add_right _ _, hstop⟩).mono ?_)
      rintro _ _ decoder ⟨rfl, rfl, rfl⟩
      refine ⟨fun _ h ↦ (List.not_mem_nil h).elim, ⟨decoder.bytes, decoder.position + len⟩,
        ⟨hstop, rfl, Nat.le_add_right _ _⟩, ⟨rfl, hstop⟩, rfl, hstop, _, rfl, ?_, ?_⟩
      · rw [Nat.add_sub_cancel_left]
        rfl
      · rintro _ ⟨⟩
        rw [List.length_take, List.length_drop]
        omega

theorem getU8_follows : Follows (fun _ ↦ True) (Decoding.getU8 : Decoding N UInt8) Decoder.getU8 :=
  (take_follows 1).returning (fun _ hlength _ hbounds ↦ returns_first hbounds hlength)
    fun _ _ ↦ trivial

theorem getU32_follows :
    Follows (fun _ ↦ True) (Decoding.getU32 : Decoding N ℕ) Decoder.getU32 := by
  refine (take_follows 4).returning (fun bytes hlength decoder hbounds ↦ ?_) fun _ _ ↦ trivial
  refine .bindExcept ((returns_array hbounds (.inl rfl) hlength).mono ?_)
  rintro _ _ decoder ⟨rfl, rfl, rfl⟩
  exact ⟨rfl, rfl, rfl⟩

theorem getU64_follows :
    Follows (fun _ ↦ True) (Decoding.getU64 : Decoding N UInt64) Decoder.getU64 := by
  refine (take_follows 8).returning (fun bytes hlength decoder hbounds ↦ ?_) fun _ _ ↦ trivial
  refine .bindExcept ((returns_array hbounds (.inr rfl) hlength).mono ?_)
  rintro _ _ decoder ⟨rfl, rfl, rfl⟩
  exact ⟨rfl, rfl, rfl⟩

theorem getBytes_follows :
    Follows (fun _ ↦ True) (Decoding.getBytes : Decoding N (List UInt8)) Decoder.getBytes :=
  getU32_follows.bind fun len _ ↦ .checked fun _ ↦ (take_follows len).mono fun _ _ ↦ trivial

theorem finish_follows :
    Follows (fun _ ↦ True) (Decoding.finish : Decoding N Unit) Decoder.finish := by
  intro decoder hbounds
  refine .bindExcept ((returns_decoder hbounds).mono ?_)
  rintro _ _ decoder ⟨rfl, rfl, rfl⟩
  simp only [Decoder.finish, bind_apply, get_apply, Sukari.failIf_apply]
  by_cases hend : decoder.position ≠ decoder.bytes.length
  · simp only [Decoding.failIf, if_pos hend]
    exact ⟨rfl, hbounds, _, rfl, rfl, fun _ _ ↦ trivial⟩
  · simp only [Decoding.failIf, if_neg hend]
    exact ⟨rfl, hbounds, _, rfl, rfl, fun _ _ ↦ trivial⟩

/-! ### The decoders of the format -/

theorem decodeCount_follows (error : String) : Follows (fun value ↦ value ≤ maxCountItems)
    (Decoding.decodeCount error : Decoding N ℕ) (decodeCount error) :=
  getU32_follows.bind fun _ _ ↦ .checked fun hlimit ↦ .pure (Nat.not_lt.mp hlimit)

theorem decodeLogPosition_follows : Follows (fun _ ↦ True)
    (Decoding.decodeLogPosition : Decoding N LogPosition) decodeLogPosition :=
  getU64_follows.bind fun _ _ ↦ getU64_follows.map fun _ _ ↦ trivial

theorem decodeOptionalNodeId_follows : Follows (fun _ ↦ True)
    (Decoding.decodeOptionalNodeId : Decoding N (Option NodeId)) decodeOptionalNodeId := by
  refine getU8_follows.bind fun tag _ ↦ ?_
  rcases eq_or_ne tag 0 with rfl | hnone
  · exact .pure trivial
  rcases eq_or_ne tag 1 with rfl | hsome
  · exact getU64_follows.map fun _ _ ↦ trivial
  · simp only
    exact .fail

/-- A loop whose rounds can be made on every accumulator. -/
theorem Follows.loop {σ : Type} {step : σ → Decoding N σ} {step' : σ → DecoderM σ}
    (h : ∀ acc, Follows (fun _ ↦ True) (step acc) (step' acc)) {count : ℕ}
    (hcount : count ≤ maxCountItems) (acc : σ) :
    Follows (fun _ ↦ True) (Decoding.repeatM step 0 count acc) (Sukari.repeatM step' count acc) :=
  (Follows.repeatM (fun _ _ ↦ True) (by rwa [Nat.zero_add]) (fun _ acc _ _ ↦ h acc) trivial).mono
    fun _ _ ↦ trivial

theorem decodeNodeIdSet_follows : Follows (fun _ ↦ True)
    (Decoding.decodeNodeIdSet : Decoding N NodeIdSet) decodeNodeIdSet :=
  (decodeCount_follows _).bind fun _ hcount ↦ .loop (fun _ ↦ getU64_follows.bind fun _ _ ↦
    .checked fun _ ↦ .pure trivial) hcount ∅

theorem decodeClusterConfig_follows : Follows (fun _ ↦ True)
    (Decoding.decodeClusterConfig : Decoding N ClusterConfig) decodeClusterConfig :=
  decodeNodeIdSet_follows.bind fun _ _ ↦ decodeNodeIdSet_follows.bind fun _ _ ↦
    decodeNodeIdSet_follows.map fun _ _ ↦ trivial

theorem decodeLogEntry_follows : Follows (fun _ ↦ True)
    (Decoding.decodeLogEntry : Decoding N LogEntry) decodeLogEntry := by
  refine getU8_follows.bind fun tag _ ↦ ?_
  rcases eq_or_ne tag 0 with rfl | hterm
  · exact getU64_follows.map fun _ _ ↦ trivial
  rcases eq_or_ne tag 1 with rfl | hconfig
  · exact decodeClusterConfig_follows.map fun _ _ ↦ trivial
  rcases eq_or_ne tag 2 with rfl | hcommand
  · exact .pure trivial
  · simp only
    exact .fail

/-- The entries that the rounds of the loop of `decode_log_entries` have pushed so far. -/
structure Pushed (N : Noraft) (prevPosition : LogPosition) (round : ℕ) (entries : N.LogEntries) :
    Prop where
  prevPosition : N.prevPosition entries = prevPosition
  length : (N.iter entries).length = round

theorem Pushed.lastIndex {prevPosition : LogPosition} {round : ℕ} {entries : N.LogEntries}
    (h : Pushed N prevPosition round entries) :
    (N.lastPosition entries).index.toNat = prevPosition.index.toNat + round := by
  rw [N.index_lastPosition, h.prevPosition, Noraft.len, h.length]

/-- The check in front of the loop leaves room for every push of the loop. -/
theorem decodeLogEntries_follows :
    Follows (fun _ ↦ True) (Decoding.decodeLogEntries N) (decodeLogEntries N) := by
  refine decodeLogPosition_follows.bind fun prevPosition _ ↦ ?_
  refine (decodeCount_follows _).bind fun count hcount ↦ .checked fun hroom ↦ ?_
  have hfits : prevPosition.index.toNat + count < 2 ^ 64 := by
    have hmax : maxCountItems < 2 ^ 64 := by decide
    have hword : (UInt64.ofNat count).toNat = count :=
      UInt64.toNat_ofNat_of_lt' (hcount.trans_lt hmax)
    simp only [LogIndex.checkedAdd, hword] at hroom
    by_contra hover
    exact hroom (by rw [if_neg hover, Option.isNone_none])
  refine (Follows.repeatM (Pushed N prevPosition) (by omega) (fun round acc hround hacc ↦ ?_)
    ⟨N.prevPosition_new _, by rw [N.iter_newEntries]; rfl⟩).mono fun _ _ ↦ trivial
  have hlast := hacc.lastIndex
  refine decodeLogEntry_follows.returning (fun entry _ decoder hbounds ↦
    returns_push hbounds (by omega)) fun entry _ ↦ ?_
  have hindex : (N.prevPosition acc).index.toNat + (N.iter acc).length + 1 < 2 ^ 64 := by
    rw [hacc.prevPosition, hacc.length]
    omega
  constructor
  · rw [N.prevPosition_push acc entry hindex, hacc.prevPosition]
  · rw [N.iter_push acc entry hindex, List.length_append, hacc.length, List.length_singleton]

theorem decodeLogAppend_follows :
    Follows (fun _ ↦ True) (Decoding.decodeLogAppend N) (decodeLogAppend N) := by
  refine decodeLogEntries_follows.bind fun entries _ ↦ ?_
  refine (decodeCount_follows _).bind fun count hcount ↦ ?_
  refine (Follows.loop (fun _ ↦ getU64_follows.bind fun _ _ ↦ getU8_follows.bind fun _ _ ↦
    getBytes_follows.bind fun _ _ ↦ .checked fun _ ↦ .pure trivial) hcount ∅).bind
      fun payloads _ ↦ ?_
  cases hnew : LogAppend.new entries payloads with
  | ok append => exact .pure trivial
  | error error => exact .fail

theorem decodeSnapshot_follows : Follows (fun _ ↦ True)
    (Decoding.decodeSnapshot : Decoding N Snapshot) decodeSnapshot :=
  decodeLogPosition_follows.bind fun _ _ ↦ decodeClusterConfig_follows.bind fun _ _ ↦
    getBytes_follows.map fun _ _ ↦ trivial

theorem decodeSnapshotCheckpoint_follows :
    Follows (fun _ ↦ True) (Decoding.decodeSnapshotCheckpoint N) (decodeSnapshotCheckpoint N) := by
  refine getU64_follows.bind fun currentTerm _ ↦ decodeOptionalNodeId_follows.bind fun votedFor _ ↦
    decodeSnapshot_follows.bind fun snapshot _ ↦ decodeLogAppend_follows.bind fun suffix _ ↦ ?_
  dsimp only
  cases hvalidate : SnapshotCheckpoint.validate ⟨currentTerm, votedFor, snapshot, suffix⟩ with
  | ok _ => exact .pure trivial
  | error error => exact .fail

theorem decodeRecord_follows :
    Follows (fun _ ↦ True) (Decoding.decodeRecord N) (decodeRecord N) := by
  refine getU8_follows.bind fun tag _ ↦ ?_
  rcases eq_or_ne tag 0 with rfl | hterm
  · exact getU64_follows.map fun _ _ ↦ trivial
  rcases eq_or_ne tag 1 with rfl | hvote
  · exact decodeOptionalNodeId_follows.map fun _ _ ↦ trivial
  rcases eq_or_ne tag 2 with rfl | happend
  · exact decodeLogAppend_follows.map fun _ _ ↦ trivial
  rcases eq_or_ne tag 3 with rfl | hcheckpoint
  · exact decodeSnapshotCheckpoint_follows.map fun _ _ ↦ trivial
  · simp only
    exact .fail

/-! ### Whole runs -/

/-- The steps of a decoder on the input, from its start to its end. -/
def decoderStates {α : Type} (program : Decoding N α) (bytes : List UInt8) : List Decoder :=
  ((decodingMachine N).trace [] program.run (.new bytes)).map Visit.state

def decoderOperations {α : Type} (program : Decoding N α) (bytes : List UInt8) :
    List (DecodingOp N) :=
  ((decodingMachine N).performed program.run (.new bytes)).map Sigma.fst

/-- In every state on the way the decoder is at a position inside its input, it never goes back, and
everything it does is within bounds. -/
structure DecodesWithin {α : Type} (program : Decoding N α) (bytes : List UInt8) : Prop where
  states : ∀ decoder ∈ decoderStates program bytes,
    decoder.bytes = bytes ∧ decoder.position ≤ bytes.length
  ascending : ((decoderStates program bytes).map Decoder.position).Pairwise (· ≤ ·)
  operations : ∀ op ∈ decoderOperations program bytes, op.Within bytes.length

theorem steps_within {ops : List (Exchange (decoding N))} {decoder decoder' : Decoder}
    (h : (decodingBounds N).Steps ops decoder decoder') : decoder'.bytes = decoder.bytes ∧
      decoder.position ≤ decoder'.position ∧
        ∀ exchange ∈ ops, DecodingOp.Within decoder.bytes.length exchange.1 := by
  induction h with
  | refl decoder => exact ⟨rfl, le_rfl, fun _ hmem ↦ (List.not_mem_nil hmem).elim⟩
  | cons first _ ih =>
    obtain ⟨hwithin, hbytes, hposition⟩ := first
    obtain ⟨hbytes', hposition', hrest⟩ := ih
    refine ⟨hbytes'.trans hbytes, hposition.trans hposition', fun exchange hmem ↦ ?_⟩
    rcases List.mem_cons.mp hmem with rfl | hmem
    · exact hwithin
    · exact hbytes ▸ hrest exchange hmem

/-- A program that follows an action decodes within bounds, and returns what the action returns. -/
theorem Follows.decodesWithin {α : Type} {post : α → Prop} {program : Decoding N α}
    {action : DecoderM α} (h : Follows post program action) (bytes : List UInt8) :
    DecodesWithin program bytes ∧ ((decodingMachine N).run program.run (.new bytes)).1 =
      (action (.new bytes)).1.mapError Stop.error := by
  have hrefines := h (.new bytes) (Nat.zero_le _)
  refine ⟨⟨fun decoder hdecoder ↦ ?_, ?_, fun op hop ↦ ?_⟩, ?_⟩
  · obtain ⟨visit, hvisit, rfl⟩ := List.mem_map.mp hdecoder
    obtain ⟨ops, decoder', -, hsteps, hstate, hbounds⟩ := hrefines.visit hvisit
    have hbytes : decoder'.bytes = bytes := (steps_within hsteps).1
    rw [hstate]
    exact ⟨hbytes, hbytes ▸ hbounds⟩
  · obtain ⟨labels, hlabels, hchain, hholds, -⟩ := hrefines.labelled []
    have hpositions : (decoderStates program bytes).map Decoder.position =
        labels.map fun label ↦ label.1.position := by
      rw [decoderStates, ← hlabels, List.map_map, List.map_map]
      refine List.map_congr_left fun label hlabel ↦ ?_
      exact congrArg Decoder.position (hholds label hlabel).1
    rw [hpositions, List.pairwise_map]
    refine (List.isChain_iff_pairwise.mp hchain).tail.imp fun {label label'} hleads ↦ ?_
    obtain ⟨ops, -, hsteps⟩ := hleads
    exact (steps_within hsteps).2.1
  · obtain ⟨exchange, hexchange, rfl⟩ := List.mem_map.mp hop
    obtain ⟨decoder', hsteps, -⟩ := hrefines.run
    exact (steps_within hsteps).2.2 exchange hexchange
  · obtain ⟨decoder', -, -, -, result', hrun, hresult, -⟩ := hrefines.run
    rw [hresult, hrun]

/-- Decoding any bytes stays within bounds, and without a panic: the results are the ones of the
decoders of `Sukari.Codec`. -/
theorem decoding_within (N : Noraft) (bytes : List UInt8) :
    (DecodesWithin (Decoding.decodeNodeRecord N) bytes ∧
      ((decodingMachine N).run (Decoding.decodeNodeRecord N).run (.new bytes)).1 =
        (decodeNodeRecord N bytes).mapError Stop.error) ∧
    (DecodesWithin (Decoding.decodeRecordNodeId N) bytes ∧
      ((decodingMachine N).run (Decoding.decodeRecordNodeId N).run (.new bytes)).1 =
        (decodeRecordNodeId bytes).mapError Stop.error) := by
  have hrecord : Follows (fun _ ↦ True) (Decoding.decodeNodeRecord N) (do
      let nodeId ← decodeNodeId
      let record ← decodeRecord N
      Decoder.finish
      return (nodeId, record)) :=
    getU64_follows.bind fun _ _ ↦ decodeRecord_follows.bind fun _ _ ↦ finish_follows.bind
      fun _ _ ↦ .pure trivial
  exact ⟨hrecord.decodesWithin bytes, getU64_follows.decodesWithin bytes⟩

end Sukari
