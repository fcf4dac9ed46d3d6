import Sukari.Effects.Footprint
import Sukari.Replay

/-!
# The requests of a pass over a segment

Whatever a pass finds in a segment, it makes no requests but to read the file and, when it recovers,
to cut it (`within_passSegment`). A pass over a directory lists it once, before all else
(`asksLast_passSegments`).
-/

set_option autoImplicit false
set_option relaxedAutoImplicit false

namespace Sukari

open Effects

variable {α σ : Type} {allowed : FsOp → Prop}

/-- The function makes only allowed requests. -/
abbrev IoWithin (allowed : FsOp → Prop) (action : IoM α) : Prop := action.run.Within allowed

/-- The requests of a pass over a segment are allowed. -/
class AllowsPass (allowed : FsOp → Prop) : Prop where
  read : ∀ name, allowed (.read name)
  setLen : ∀ name len, allowed (.setLen name len)

theorem within_io {op : FsOp} (h : allowed op) : IoWithin allowed (io op) := ⟨h, fun _ ↦ trivial⟩

theorem within_liftM (result : Except IoError α) : IoWithin allowed (liftM result : IoM α) := by
  cases result <;> trivial

theorem within_failIf {condition : Prop} [Decidable condition] {error : IoError} :
    IoWithin allowed (failIf condition error : IoM Unit) := by
  unfold failIf
  split <;> trivial

theorem within_onlyIf {condition : Prop} [Decidable condition] {action : IoM Unit}
    (h : IoWithin allowed action) : IoWithin allowed (onlyIf condition action) := by
  unfold onlyIf
  split
  · exact h
  · trivial

section Pass

variable [AllowsPass allowed]

theorem within_openSegment (segment : ℕ) : IoWithin allowed (openSegment segment) := by
  refine .bindExcept (within_io (AllowsPass.read segment)) fun contents ↦ ?_
  cases contents <;> trivial

theorem within_readSegmentHeader (segment : ℕ) (bytes : List UInt8)
    (allowPartial recoverPartial : Bool) :
    IoWithin allowed (readSegmentHeader segment bytes allowPartial recoverPartial) := by
  unfold readSegmentHeader
  split_ifs
  · trivial
  · trivial
  · exact .bindExcept (within_io (AllowsPass.setLen _ _)) fun _ ↦ trivial
  · trivial
  · trivial
  · trivial
  · trivial

theorem within_passSegment {β : Type}
    (readFrame : Stream → Except IoError (Option (β × Stream)))
    (visit : σ → ℕ → β → Except IoError σ) (start : ℕ → Except IoError ℕ) (segment : ℕ)
    (allowPartial recoverPartial : Bool) (acc : σ) :
    IoWithin allowed
      (passSegment readFrame visit start segment allowPartial recoverPartial acc) := by
  refine .bindExcept (within_openSegment segment) fun bytes ↦
    .bindExcept (within_readSegmentHeader segment bytes allowPartial recoverPartial)
      fun found ↦ ?_
  split
  · refine .bindExcept (within_liftM _) fun offset ↦ .bindExcept (within_liftM _) ?_
    rintro ⟨acc, partialStart⟩
    cases partialStart with
    | none => trivial
    | some recordStart =>
      exact .bindExcept (within_onlyIf (within_io (AllowsPass.setLen _ _))) fun _ ↦ trivial
  · trivial


end Pass

/-- The loop of a pass over a directory. -/
theorem within_passes {pass : ℕ → Bool → σ → IoM σ}
    (h : ∀ segment allowPartial acc, IoWithin allowed (pass segment allowPartial acc))
    (startSegment : Option ℕ) (activeSegment : ℕ) (segments : List ℕ) (acc : σ) :
    IoWithin allowed (segments.foldlM (fun acc segment ↦
      if startSegment.any fun start ↦ segment < start then return acc
      else pass segment (segment == activeSegment) acc) acc) := by
  refine .foldlM (fun acc segment ↦ ?_) segments acc
  split
  · trivial
  · exact h segment _ acc

/-! ### Listing the directory -/

/-- The request does not list the directory. -/
def FsOp.ListsNothing (op : FsOp) : Prop := op ≠ .readDir

instance : AllowsPass FsOp.ListsNothing where
  read _ := nofun
  setLen _ _ := nofun

/-- A pass over a directory lists it once. -/
theorem asksLast_passSegments {pass : ℕ → Bool → σ → IoM σ}
    (hpass : ∀ segment allowPartial acc, IoWithin FsOp.ListsNothing (pass segment allowPartial acc))
    (world : ℕ → Fs) (startSegment : Option ℕ) (activeSegment t : ℕ) (recoverPartial : Bool)
    (acc : σ) : directory.AsksLast world .readDir t
      (passSegments pass startSegment activeSegment recoverPartial acc).run t where
  asks := .inl ⟨rfl, rfl⟩
  last other hother := by
    rcases hother with ⟨rfl, -⟩ | hlater
    · exact le_rfl
    · have hpasses := within_passes hpass startSegment (replayActiveSegment
        (discoverSegments (world t).entries) activeSegment recoverPartial)
        (discoverSegments (world t).entries) acc
      exact absurd hlater (hpasses.not_asks fun hlists ↦ hlists rfl)

end Sukari
