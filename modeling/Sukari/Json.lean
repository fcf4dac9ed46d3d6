import Sukari.Error
import Mathlib.Algebra.Group.Nat.Defs
import Mathlib.Data.List.Basic
import Mathlib.Data.List.TakeWhile

/-!
# JSON documents

The metadata files are JSON texts that the storage code reads and writes through `nojson`. `Json` is
a document as the storage code hands it to the formatter of that crate, one constructor for each
thing that it prints, and `JsonReader` are the accessors of parsed values that it reads with. The
crate itself is not part of this repository. Texts are treated over a parameter for it; the file
system of the engine holds documents in place of their texts, and `ReadAs` is what a value that was
parsed from the text of a document has in common with the document. `parseU64` is the `u64` parser
of the standard library that reads decimal keys and segment IDs, and `parseU64_toDigits` says that
it reads what the decimal formatter prints.
-/

set_option autoImplicit false
set_option relaxedAutoImplicit false

namespace Sukari

/-- `nojson::RawJsonOwned`: a JSON value by its source text. -/
structure RawJsonOwned where
  text : String
  deriving DecidableEq

/-- What the storage code reads from a `nojson::RawJsonValue`. Values with the same source text are
not told apart by their places in a larger text. -/
class JsonReader (V : Type) where
  /-- The members in the order of the text, with their names unquoted. -/
  toObject : V → Except JsonParseError (List (String × V))
  toMember : V → String → Except JsonParseError (Option V)
  toU64 : V → Except JsonParseError ℕ
  toBool : V → Except JsonParseError Bool
  toText : V → Except JsonParseError String
  toRawJsonOwned : V → RawJsonOwned
  /-- A member is looked for from the first one on. -/
  toMember_eq_lookup {value : V} {members : List (String × V)} (name : String)
    (h : toObject value = .ok members) : toMember value name = .ok (members.lookup name)

/-- `to_member(name)?.required()?`. -/
def requiredMember {V : Type} [JsonReader V] (value : V) (name : String) :
    Except JsonParseError V := do
  match ← JsonReader.toMember value name with
  | some member => return member
  | none => throw (.missingMember name)

/-! ### Whitespace around a value -/

namespace Json

def isWhitespace (c : Char) : Bool := c = ' ' || c = '\t' || c = '\n' || c = '\r'

def trimWhitespace (text : String) : String :=
  .ofList (((text.toList.dropWhile isWhitespace).reverse.dropWhile isWhitespace).reverse)

/-- A text of whitespace only. -/
def Blank (text : String) : Prop := ∀ c ∈ text.toList, isWhitespace c = true

instance (text : String) : Decidable (Blank text) :=
  decidable_of_iff (text.toList.all isWhitespace = true) List.all_eq_true

theorem blank_ofList {chars : List Char} :
    Blank (.ofList chars) ↔ ∀ c ∈ chars, isWhitespace c = true := by
  rw [Blank, String.toList_ofList]

end Json

/-- The text neither starts nor ends with whitespace. -/
def Unpadded (text : String) : Prop :=
  (∀ c ∈ text.toList.head?, Json.isWhitespace c = false) ∧
    ∀ c ∈ text.toList.getLast?, Json.isWhitespace c = false

theorem dropWhile_eq_self_iff_head? {α : Type} {p : α → Bool} {items : List α} :
    items.dropWhile p = items ↔ ∀ item ∈ items.head?, p item = false := by
  cases items with
  | nil => simp
  | cons item rest =>
    rw [List.dropWhile_eq_self_iff]
    simp

namespace Json

/-- What is left of a text of which the whitespace around it is known. -/
theorem trimWhitespace_padded {before core after : String} (hbefore : Blank before)
    (hafter : Blank after) (hcore : Unpadded core) :
    trimWhitespace (before ++ core ++ after) = core := by
  rw [← String.toList_inj, trimWhitespace, String.toList_ofList, String.toList_append,
    String.toList_append, List.append_assoc, List.dropWhile_append_of_pos hbefore]
  obtain ⟨hfirst, hlast⟩ := hcore
  rw [← List.head?_reverse, ← dropWhile_eq_self_iff_head?] at hlast
  rw [← dropWhile_eq_self_iff_head?] at hfirst
  have hreverse : ∀ c ∈ after.toList.reverse, isWhitespace c = true := fun c hc ↦
    hafter c (List.mem_reverse.mp hc)
  cases hchars : core.toList with
  | nil =>
    have hnone : after.toList.dropWhile isWhitespace = [] := by
      rw [List.dropWhile_eq_nil_iff]
      exact hafter
    simp [hnone]
  | cons c rest =>
    rw [hchars] at hfirst hlast
    have hkept : (c :: rest ++ after.toList).dropWhile isWhitespace =
        c :: rest ++ after.toList := by
      rw [dropWhile_eq_self_iff_head?] at hfirst ⊢
      exact hfirst
    rw [hkept, List.reverse_append, List.dropWhile_append_of_pos hreverse, hlast,
      List.reverse_reverse]

/-- Trimming takes whitespace only, and all of it. -/
theorem exists_trimmed (text : String) : ∃ before after,
    text = before ++ trimWhitespace text ++ after ∧ Blank before ∧ Blank after ∧
      Unpadded (trimWhitespace text) := by
  have hblank {items : List Char} {c : Char} (h : c ∈ items.takeWhile isWhitespace) :
      isWhitespace c = true := List.mem_takeWhile_imp h
  have hhead (items : List Char) : ∀ c ∈ (items.dropWhile isWhitespace).head?,
      isWhitespace c = false := by
    intro c hc
    have hnot := List.head?_dropWhile_not isWhitespace items
    rw [Option.mem_def.mp hc] at hnot
    simpa using hnot
  rw [trimWhitespace]
  set first := text.toList.dropWhile isWhitespace with hfirst
  set core := (first.reverse.dropWhile isWhitespace).reverse with hcore
  set after := (first.reverse.takeWhile isWhitespace).reverse with hafter
  have hsplit : first = core ++ after := by
    rw [hcore, hafter, ← List.reverse_append, List.takeWhile_append_dropWhile, List.reverse_reverse]
  refine ⟨.ofList (text.toList.takeWhile isWhitespace), .ofList after, ?_, ?_, ?_, ?_, ?_⟩
  · rw [← String.toList_inj]
    simp only [String.toList_append, String.toList_ofList]
    rw [List.append_assoc, ← hsplit, hfirst, List.takeWhile_append_dropWhile]
  · exact blank_ofList.mpr fun c hc ↦ hblank hc
  · exact blank_ofList.mpr fun c hc ↦ hblank (List.mem_reverse.mp (hafter ▸ hc))
  · intro c hc
    rw [String.toList_ofList] at hc
    refine hhead text.toList c ?_
    rw [← hfirst, hsplit, List.head?_append, Option.mem_def.mp hc]
    rfl
  · intro c hc
    rw [String.toList_ofList, hcore, List.getLast?_reverse] at hc
    exact hhead first.reverse c hc

theorem trimWhitespace_eq_self_iff {text : String} :
    trimWhitespace text = text ↔ Unpadded text := by
  constructor
  · intro h
    obtain ⟨_, _, _, _, _, hunpadded⟩ := exists_trimmed text
    rwa [h] at hunpadded
  · intro h
    have hempty : Blank "" := by decide
    simpa using trimWhitespace_padded hempty hempty h

end Json

/-! ### Documents -/

/-- What is handed to `nojson::JsonFormatter`. A `raw` text is written as it is. -/
inductive Json
  | boolean (value : Bool)
  | integer (value : ℕ)
  | string (text : String)
  | object (members : List (String × Json))
  | raw (text : String)

namespace Json

mutual

/-- The text of a document as a value, without the whitespace around it. -/
def sourceText : Json → String
  | .boolean value => toString value
  | .integer value => Nat.repr value
  | .string text => text.quote
  | .object members => "\x7b" ++ ",".intercalate (memberTexts members) ++ "\x7d"
  | .raw text => trimWhitespace text

def memberTexts : List (String × Json) → List String
  | [] => []
  | (name, value) :: rest => (name.quote ++ ":" ++ sourceText value) :: memberTexts rest

end

def toObject : Json → Except JsonParseError (List (String × Json))
  | .object members => return members
  | _ => throw .unexpectedType

/-- A document is read as the value that it stands for. A raw text is only taken as a whole. -/
instance : JsonReader Json where
  toObject := toObject
  toMember document name := do
    let members ← document.toObject
    return members.lookup name
  toU64
    | .integer value => if value < 2 ^ 64 then return value else throw .invalidInteger
    | _ => throw .unexpectedType
  toBool
    | .boolean value => return value
    | _ => throw .unexpectedType
  toText
    | .string text => return text
    | _ => throw .unexpectedType
  toRawJsonOwned document := ⟨document.sourceText⟩
  toMember_eq_lookup name h := by
    simp only [h, bind, Except.bind, pure, Except.pure]

/-! ### Values that read as a document -/

def isPlain (c : Char) : Bool := ' ' ≤ c && c ≤ '~' && c != '"' && c != '\\'

/-- A text that is printed between quotes as it is. -/
def Plain (text : String) : Prop := ∀ c ∈ text.toList, isPlain c = true

instance (text : String) : Decidable (Plain text) :=
  decidable_of_iff (text.toList.all isPlain = true) List.all_eq_true

mutual

/-- Integers fit in `u64`, strings and names need no escapes, and raw texts are accepted ones. -/
def Printable (accepted : String → Prop) : Json → Prop
  | .boolean _ => True
  | .integer value => value < 2 ^ 64
  | .string text => Plain text
  | .object members => MembersPrintable accepted members
  | .raw text => accepted text

def MembersPrintable (accepted : String → Prop) : List (String × Json) → Prop
  | [] => True
  | (name, document) :: rest =>
    Plain name ∧ Printable accepted document ∧ MembersPrintable accepted rest

end

section ReadAs

variable {V : Type} [JsonReader V]

mutual

/-- The accessors return what the document says. -/
def ReadAs : Json → V → Prop
  | .boolean flag, value => JsonReader.toBool value = .ok flag
  | .integer number, value => JsonReader.toU64 value = .ok number
  | .string text, value => JsonReader.toText value = .ok text
  | .object documents, value =>
    ∃ members, JsonReader.toObject value = .ok members ∧ MembersReadAs documents members
  | .raw text, value => JsonReader.toRawJsonOwned value = ⟨trimWhitespace text⟩

def MembersReadAs : List (String × Json) → List (String × V) → Prop
  | [], members => members = []
  | (name, document) :: documents, members => ∃ value rest,
    members = (name, value) :: rest ∧ ReadAs document value ∧ MembersReadAs documents rest

end

end ReadAs

mutual

theorem readAs_self {accepted : String → Prop} :
    ∀ {document : Json}, Printable accepted document → ReadAs document document
  | .boolean _, _ => by rfl
  | .integer _, h => by rw [ReadAs]; exact if_pos (by rwa [Printable] at h)
  | .string _, _ => by rfl
  | .raw _, _ => by rfl
  | .object members, h => by
    rw [Printable] at h
    rw [ReadAs]
    exact ⟨members, rfl, membersReadAs_self h⟩

theorem membersReadAs_self {accepted : String → Prop} :
    ∀ {members : List (String × Json)}, MembersPrintable accepted members →
      MembersReadAs members members
  | [], _ => by rw [MembersReadAs]
  | (_, document) :: rest, h => by
    rw [MembersPrintable] at h
    rw [MembersReadAs]
    exact ⟨document, rest, rfl, readAs_self h.2.1, membersReadAs_self h.2.2⟩

end

end Json

/-! ### Decimal numbers -/

/-- `str::parse::<u64>`. -/
def parseU64 (text : List Char) : Option ℕ :=
  let digits := if text.head? = some '+' then text.tail else text
  if digits = [] ∨ ¬ digits.all Char.isDigit then none
  else
    let value := Nat.ofDigitChars 10 digits 0
    if value < 2 ^ 64 then some value else none

theorem head?_toDigits_ne {n : ℕ} {c : Char} (h : c.isDigit = false) :
    (Nat.toDigits 10 n).head? ≠ some c := by
  intro hhead
  have hmem := Nat.isDigit_of_mem_toDigits (by decide) (by decide) (List.mem_of_mem_head? hhead)
  simp [h] at hmem

theorem all_isDigit_toDigits (n : ℕ) : (Nat.toDigits 10 n).all Char.isDigit = true := by
  rw [List.all_eq_true]
  exact fun c hc ↦ Nat.isDigit_of_mem_toDigits (by decide) (by decide) hc

theorem plain_repr (n : ℕ) : Json.Plain (Nat.repr n) := by
  intro c hc
  rw [Nat.toList_repr] at hc
  have hdigit := Nat.isDigit_of_mem_toDigits (by decide) (by decide) hc
  have hother {d : Char} (hd : d.isDigit = false) : c ≠ d := by
    rintro rfl
    exact absurd hdigit (by simp [hd])
  simp only [Char.isDigit, Bool.and_eq_true, decide_eq_true_eq] at hdigit
  simp only [Json.isPlain, Bool.and_eq_true, decide_eq_true_eq, bne_iff_ne]
  exact ⟨⟨⟨UInt32.le_trans (by decide) hdigit.1, UInt32.le_trans hdigit.2 (by decide)⟩,
    hother rfl⟩, hother rfl⟩

/-- The parser reads a printed number back. -/
theorem parseU64_toDigits {n : ℕ} (h : n < 2 ^ 64) : parseU64 (Nat.toDigits 10 n) = some n := by
  have hsign : (Nat.toDigits 10 n).head? ≠ some '+' := head?_toDigits_ne (by decide)
  simp only [parseU64, if_neg hsign, Nat.toDigits_ne_nil, all_isDigit_toDigits, not_true_eq_false,
    or_self, if_false, Nat.ofDigitChars_toDigits (by decide : 1 < 10) (by decide), if_pos h]

end Sukari
