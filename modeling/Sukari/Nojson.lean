import Sukari.Json

/-!
# The JSON crate

`Nojson` is what the storage code uses of the crate `nojson`: a parser of texts, the accessors of
parsed values and a formatter. The crate is not part of this repository, so all of it is a
parameter, and what the storage code relies on are the laws of the structure: that printing is
inverse to parsing, that whitespace around a value is accepted, and that a value is stored by its
source text without this whitespace. `parse_display` puts the laws together: the text of a document,
with any accepted text spliced in, is parsed into a value that reads as the document.
-/

set_option autoImplicit false
set_option relaxedAutoImplicit false

namespace Sukari

structure Nojson where
  /-- The values of parsed texts. -/
  RawJsonValue : Type
  [reader : JsonReader RawJsonValue]
  /-- `RawJsonOwned::parse` and the value that it returns. -/
  parse : String → Except JsonParseError RawJsonValue
  displayBool : Bool → String
  displayU64 : ℕ → String
  displayStr : String → String
  /-- `JsonFormatter::object` with spacing and an indent of two, at a level of nesting, from the
  names and the texts of the members. -/
  displayObject : ℕ → List (String × String) → String
  parse_displayBool (flag : Bool) :
    ∃ value, parse (displayBool flag) = .ok value ∧ JsonReader.toBool value = .ok flag
  parse_displayU64 {number : ℕ} (h : number < 2 ^ 64) :
    ∃ value, parse (displayU64 number) = .ok value ∧ JsonReader.toU64 value = .ok number
  parse_displayStr {text : String} (h : Json.Plain text) :
    ∃ value, parse (displayStr text) = .ok value ∧ JsonReader.toText value = .ok text
  /-- The texts of the members may be any that the parser accepts: a JSON text, with whitespace
  around it, may stand wherever a value may. -/
  parse_displayObject (level : ℕ) {texts : List (String × String)}
    {members : List (String × RawJsonValue)} (hnames : ∀ item ∈ texts, Json.Plain item.1)
    (hmembers : List.Forall₂ (fun item member ↦ item.1 = member.1 ∧ parse item.2 = .ok member.2)
      texts members) :
    ∃ value, parse (displayObject level texts) = .ok value ∧
      JsonReader.toObject value = .ok members
  parse_padded {before text after : String} {value : RawJsonValue} (hbefore : Json.Blank before)
    (hafter : Json.Blank after) (h : parse text = .ok value) :
    parse (before ++ text ++ after) = .ok value
  /-- The source text of the value in a text. -/
  toRawJsonOwned_of_parse {text : String} {value : RawJsonValue} (h : parse text = .ok value) :
    ∃ before after, text = before ++ (JsonReader.toRawJsonOwned value).text ++ after ∧
      Json.Blank before ∧ Json.Blank after ∧ Unpadded (JsonReader.toRawJsonOwned value).text

namespace Nojson

variable (J : Nojson)

instance : JsonReader J.RawJsonValue := J.reader

/-- The texts that a `RawJsonOwned` can have. -/
def Accepts (text : String) : Prop := ∃ value, J.parse text = .ok value

mutual

/-- `DisplayJson::fmt` of a document at a level of nesting. -/
def display : Json → ℕ → String
  | .boolean flag, _ => J.displayBool flag
  | .integer number, _ => J.displayU64 number
  | .string text, _ => J.displayStr text
  | .object members, level => J.displayObject level (displayMembers members (level + 1))
  | .raw text, _ => text

def displayMembers : List (String × Json) → ℕ → List (String × String)
  | [], _ => []
  | (name, document) :: rest, level => (name, display document level) :: displayMembers rest level

end

variable {J}

theorem trimWhitespace_of_parse {text : String} {value : J.RawJsonValue}
    (h : J.parse text = .ok value) :
    JsonReader.toRawJsonOwned value = ⟨Json.trimWhitespace text⟩ := by
  obtain ⟨before, after, htext, hbefore, hafter, hunpadded⟩ := J.toRawJsonOwned_of_parse h
  rw [htext, Json.trimWhitespace_padded hbefore hafter hunpadded]

theorem plain_displayMembers {documents : List (String × Json)} {level : ℕ}
    (h : Json.MembersPrintable J.Accepts documents) :
    ∀ item ∈ J.displayMembers documents level, Json.Plain item.1 := by
  induction documents with
  | nil => simp [displayMembers]
  | cons document rest ih =>
    rw [Json.MembersPrintable] at h
    rw [displayMembers]
    exact List.forall_mem_cons.mpr ⟨h.1, ih h.2.2⟩

mutual

/-- The text of a document is parsed into a value that reads as the document. -/
theorem parse_display : ∀ {document : Json} (level : ℕ), document.Printable J.Accepts →
    ∃ value, J.parse (J.display document level) = .ok value ∧ document.ReadAs value
  | .boolean flag, _, _ => by
    simp only [display, Json.ReadAs]
    exact J.parse_displayBool flag
  | .integer number, _, h => by
    rw [Json.Printable] at h
    simp only [display, Json.ReadAs]
    exact J.parse_displayU64 h
  | .string text, _, h => by
    rw [Json.Printable] at h
    simp only [display, Json.ReadAs]
    exact J.parse_displayStr h
  | .raw text, _, h => by
    rw [Json.Printable] at h
    obtain ⟨value, hvalue⟩ := h
    simp only [display, Json.ReadAs]
    exact ⟨value, hvalue, trimWhitespace_of_parse hvalue⟩
  | .object documents, level, h => by
    rw [Json.Printable] at h
    obtain ⟨members, hmembers, hread⟩ := parse_displayMembers (level + 1) h
    obtain ⟨value, hvalue, hobject⟩ :=
      J.parse_displayObject level (plain_displayMembers h) hmembers
    simp only [display, Json.ReadAs]
    exact ⟨value, hvalue, members, hobject, hread⟩

theorem parse_displayMembers : ∀ {documents : List (String × Json)} (level : ℕ),
    Json.MembersPrintable J.Accepts documents →
    ∃ members, List.Forall₂ (fun item member ↦ item.1 = member.1 ∧ J.parse item.2 = .ok member.2)
        (J.displayMembers documents level) members ∧ Json.MembersReadAs documents members
  | [], _, _ => by
    simp only [displayMembers, Json.MembersReadAs]
    exact ⟨[], .nil, rfl⟩
  | (name, document) :: rest, level, h => by
    rw [Json.MembersPrintable] at h
    obtain ⟨value, hvalue, hread⟩ := parse_display level h.2.1
    obtain ⟨members, hmembers, hrest⟩ := parse_displayMembers level h.2.2
    simp only [displayMembers, Json.MembersReadAs]
    exact ⟨(name, value) :: members, .cons ⟨rfl, hvalue⟩ hmembers, value, members, rfl,
      hread, hrest⟩

end

/-- The same for a text that ends in a line break. -/
theorem parse_display_line {document : Json} (h : document.Printable J.Accepts) :
    ∃ value, J.parse (J.display document 0 ++ "\n") = .ok value ∧ document.ReadAs value := by
  obtain ⟨value, hvalue, hread⟩ := parse_display 0 h
  have hnone : Json.Blank "" := by decide
  have hline : Json.Blank "\n" := by decide
  refine ⟨value, ?_, hread⟩
  have hpadded := J.parse_padded hnone hline hvalue
  rwa [String.empty_append] at hpadded

end Nojson

end Sukari
