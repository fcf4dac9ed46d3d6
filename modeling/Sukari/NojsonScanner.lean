import Sukari.Nojson

/-!
# A scanner of JSON texts

`Nojson.scanner` is an executable parser and formatter with the laws of `Nojson`. A value is kept as
its source text, and the scanner looks at brackets and quotes only: an accepted text closes
everything that it opens and has no comma and no colon outside. So it accepts every JSON text, and
some that are none. The members of an object are cut out at the commas and colons between its
braces, and the formatter breaks and indents lines as `nojson` does.
-/

set_option autoImplicit false
set_option relaxedAutoImplicit false

namespace Sukari

namespace Scanner

open Json

/-- How many brackets are open, whether a string is, and whether a backslash stands before the next
character. -/
structure State where
  depth : ℕ
  quoted : Bool
  escaped : Bool
  deriving DecidableEq

def outside : State := ⟨0, false, false⟩

def step (state : State) (c : Char) : Option State :=
  if state.quoted then
    if state.escaped then some { state with escaped := false }
    else if c = '\\' then some { state with escaped := true }
    else if c = '"' then some { state with quoted := false }
    else some state
  else if c = '"' then some { state with quoted := true }
  else if c = '\x7b' ∨ c = '[' then some { state with depth := state.depth + 1 }
  else if c = '\x7d' ∨ c = ']' then
    if state.depth = 0 then none else some { state with depth := state.depth - 1 }
  else some state

/-- The state behind a text that has no separator outside. -/
def scan (separators : List Char) : State → List Char → Option State
  | state, [] => some state
  | state, c :: rest =>
    if state = outside ∧ c ∈ separators then none
    else (step state c).bind fun next ↦ scan separators next rest

/-- The pieces of a text between the separators outside. -/
def split (separator : Char) : State → List Char → List (List Char)
  | _, [] => [[]]
  | state, c :: rest =>
    if state = outside ∧ c = separator then [] :: split separator outside rest
    else
      match step state c with
      | none => [c :: rest]
      | some next => (split separator next rest).modifyHead (c :: ·)

def Closed (text : List Char) : Prop := scan [',', ':'] outside text = some outside

instance (text : List Char) : Decidable (Closed text) :=
  inferInstanceAs (Decidable (scan [',', ':'] outside text = some outside))

def parse (text : String) : Except JsonParseError String :=
  let source := trimWhitespace text
  if source ≠ "" ∧ Closed source.toList then return source
  else throw (.invalid "unexpected end of text")

def unquote (source : String) : Except JsonParseError String :=
  match source.toList with
  | '"' :: rest => if rest.getLast? = some '"' then return .ofList rest.dropLast
    else throw .unexpectedType
  | _ => throw .unexpectedType

def member (piece : List Char) : Except JsonParseError (String × String) :=
  match split ':' outside piece with
  | [name, value] => do
    let name ← unquote (trimWhitespace (.ofList name))
    let value ← parse (.ofList value)
    return (name, value)
  | _ => throw (.invalid "unexpected member")

def toObject (source : String) : Except JsonParseError (List (String × String)) :=
  match source.toList with
  | '\x7b' :: rest =>
    if rest.getLast? ≠ some '\x7d' then throw .unexpectedType
    else if rest.dropLast.all isWhitespace then return []
    else (split ',' outside rest.dropLast).mapM member
  | _ => throw .unexpectedType

def toU64 (source : String) : Except JsonParseError ℕ :=
  match parseU64 source.toList with
  | some number => return number
  | none => throw .invalidInteger

/-- The values are the source texts. -/
@[reducible] def reader : JsonReader String where
  toObject := toObject
  toMember source name := do
    let members ← toObject source
    return members.lookup name
  toU64 := toU64
  toBool source :=
    if source = "true" then return true
    else if source = "false" then return false
    else throw .unexpectedType
  toText := unquote
  toRawJsonOwned source := ⟨source⟩
  toMember_eq_lookup name h := by
    simp only [h, bind, Except.bind, pure, Except.pure]

def indent (level : ℕ) : List Char := List.replicate (2 * level) ' '

def quoted (text : String) : List Char := '"' :: text.toList ++ ['"']

/-- A member on a line of its own. -/
def line (level : ℕ) (item : String × String) : List Char :=
  '\n' :: indent (level + 1) ++ quoted item.1 ++ ':' :: ' ' :: item.2.toList

def lines (level : ℕ) : List (String × String) → List Char
  | [] => []
  | [item] => line level item ++ '\n' :: indent level
  | item :: second :: rest => line level item ++ ',' :: lines level (second :: rest)

def displayObject (level : ℕ) (items : List (String × String)) : String :=
  .ofList ('\x7b' :: lines level items ++ ['\x7d'])

/-! ### Scanning -/

variable {separators : List Char} {state next : State}

theorem scan_append (first second : List Char) :
    scan separators state (first ++ second) =
      (scan separators state first).bind fun next ↦ scan separators next second := by
  induction first generalizing state with
  | nil => rfl
  | cons c rest ih =>
    simp only [List.cons_append, scan]
    split
    · rfl
    · cases step state c with
      | none => rfl
      | some next => exact ih

theorem scan_mono {fewer : List Char} {text : List Char} (hsub : fewer ⊆ separators)
    (h : scan separators state text = some next) : scan fewer state text = some next := by
  induction text generalizing state with
  | nil => exact h
  | cons c rest ih =>
    simp only [scan] at h ⊢
    split at h
    · nomatch h
    · next hc =>
      rw [if_neg fun hfewer ↦ hc ⟨hfewer.1, hsub hfewer.2⟩]
      cases hstep : step state c with
      | none => rw [hstep] at h; nomatch h
      | some following => rw [hstep] at h; exact ih h

def State.deeper (state : State) : State := { state with depth := state.depth + 1 }

theorem step_deeper {c : Char} (h : step state c = some next) :
    step state.deeper c = some next.deeper := by
  simp only [step, State.deeper] at h ⊢
  grind

/-- Between brackets no separator stands outside. -/
theorem scan_deeper {more : List Char} {text : List Char}
    (h : scan separators state text = some next) :
    scan more state.deeper text = some next.deeper := by
  induction text generalizing state with
  | nil => exact congrArg (Option.map State.deeper) h
  | cons c rest ih =>
    have hinside : state.deeper ≠ outside := fun heq ↦ by
      simpa [State.deeper, outside] using congrArg State.depth heq
    simp only [scan] at h ⊢
    rw [if_neg fun hc ↦ hinside hc.1]
    split at h
    · nomatch h
    · cases hstep : step state c with
      | none => rw [hstep] at h; nomatch h
      | some following =>
        rw [hstep] at h
        rw [step_deeper hstep]
        exact ih h

theorem scan_blank {text : List Char} (h : ∀ c ∈ text, isWhitespace c = true) :
    scan [',', ':'] outside text = some outside := by
  induction text with
  | nil => rfl
  | cons c rest ih =>
    have hc := h c (by simp)
    simp only [isWhitespace, Bool.or_eq_true, decide_eq_true_eq] at hc
    obtain ((rfl | rfl) | rfl) | rfl := hc <;>
      exact ih fun c' hc' ↦ h c' (by simp [hc'])

theorem closed_quoted {text : String} (h : Plain text) : Closed (quoted text) := by
  have hinside : ∀ chars : List Char, (∀ c ∈ chars, c ≠ '"' ∧ c ≠ '\\') →
      scan [',', ':'] ⟨0, true, false⟩ (chars ++ ['"']) = some outside := by
    intro chars hchars
    induction chars with
    | nil => decide
    | cons c rest ih =>
      obtain ⟨hquote, hbackslash⟩ := hchars c (by simp)
      have hstep : step ⟨0, true, false⟩ c = some ⟨0, true, false⟩ := by
        simp [step, hquote, hbackslash]
      have hquoted : (⟨0, true, false⟩ : State) ≠ outside := by decide
      rw [List.cons_append, scan, if_neg fun hc ↦ hquoted hc.1, hstep]
      exact ih fun c' hc' ↦ hchars c' (by simp [hc'])
  refine hinside _ fun c hc ↦ ?_
  have hplain := h c hc
  simp only [isPlain, Bool.and_eq_true, bne_iff_ne] at hplain
  exact ⟨hplain.1.2, hplain.2⟩

/-- An accepted text is closed, also with the whitespace around its value. -/
theorem closed_of_parse {text source : String} (h : parse text = .ok source) :
    source = trimWhitespace text ∧ source ≠ "" ∧ Closed text.toList := by
  simp only [parse] at h
  split at h
  · next hsource =>
    obtain rfl := Except.ok.inj h
    refine ⟨rfl, hsource.1, ?_⟩
    obtain ⟨before, after, htext, hbefore, hafter, -⟩ := exists_trimmed text
    have hclosed := hsource.2
    generalize trimWhitespace text = source at htext hclosed
    rw [Closed] at hclosed ⊢
    simp only [htext, String.toList_append, scan_append, scan_blank hbefore, Option.bind_some,
      hclosed, scan_blank hafter]
  · nomatch h

theorem parse_padded {before text after source : String} (hbefore : Blank before)
    (hafter : Blank after) (h : parse text = .ok source) :
    parse (before ++ text ++ after) = .ok source := by
  have htrim : trimWhitespace (before ++ text ++ after) = trimWhitespace text := by
    obtain ⟨first, last, htext, hfirst, hlast, hcore⟩ := exists_trimmed text
    have houter : before ++ text ++ after =
        (before ++ first) ++ trimWhitespace text ++ (last ++ after) := by
      conv_lhs => rw [htext]
      simp only [String.append_assoc]
    rw [houter]
    refine trimWhitespace_padded (fun c hc ↦ ?_) (fun c hc ↦ ?_) hcore
    · rw [String.toList_append, List.mem_append] at hc
      exact hc.elim (hbefore c) (hfirst c)
    · rw [String.toList_append, List.mem_append] at hc
      exact hc.elim (hlast c) (hafter c)
  simp only [parse] at h ⊢
  rw [htrim]
  exact h

/-! ### Splitting -/

theorem split_append {separator : Char} {text : List Char} (rest : List Char)
    (h : scan [separator] state text = some next) :
    split separator state (text ++ rest) = (split separator next rest).modifyHead (text ++ ·) := by
  induction text generalizing state with
  | nil =>
    obtain rfl := Option.some.inj h
    exact (congrFun List.modifyHead_id _).symm
  | cons c text ih =>
    simp only [scan, List.mem_singleton] at h
    split at h
    · nomatch h
    · next hc =>
      cases hstep : step state c with
      | none => rw [hstep] at h; nomatch h
      | some following =>
        rw [hstep] at h
        simp only [List.cons_append, split, if_neg hc, hstep, ih h, List.modifyHead_modifyHead]
        rfl

theorem split_closed {separator : Char} {text : List Char}
    (h : scan [separator] outside text = some outside) : split separator outside text = [text] := by
  have happend := split_append [] h
  rw [List.append_nil] at happend
  simp [happend, split]

theorem split_separator {separator : Char} {text : List Char} (rest : List Char)
    (h : scan [separator] outside text = some outside) :
    split separator outside (text ++ separator :: rest) = text :: split separator outside rest := by
  rw [split_append _ h]
  simp [split]

/-! ### Objects -/

theorem blank_indent (level : ℕ) : ∀ c ∈ '\n' :: indent level, isWhitespace c = true := by
  refine List.forall_mem_cons.mpr ⟨rfl, fun c hc ↦ ?_⟩
  rw [List.eq_of_mem_replicate hc]
  rfl

theorem unquote_quoted (text : String) : unquote (.ofList (quoted text)) = .ok text := by
  simp [unquote, quoted, pure, Except.pure]

/-- A text between two characters that are no whitespace. -/
theorem unpadded_between {first last : Char} {inner : List Char}
    (hfirst : isWhitespace first = false) (hlast : isWhitespace last = false) :
    Unpadded (.ofList (first :: inner ++ [last])) := by
  rw [Unpadded, String.toList_ofList, List.getLast?_concat]
  exact ⟨by simpa using hfirst, by simpa using hlast⟩

theorem unpadded_quoted (text : String) : Unpadded (.ofList (quoted text)) :=
  unpadded_between rfl rfl

theorem trimWhitespace_quoted (before : List Char) (text : String)
    (h : ∀ c ∈ before, isWhitespace c = true) :
    trimWhitespace (.ofList (before ++ quoted text)) = .ofList (quoted text) := by
  have hnone : Blank "" := by decide
  have htrim := trimWhitespace_padded (blank_ofList.mpr h) hnone (unpadded_quoted text)
  rwa [String.append_empty, ← String.ofList_append] at htrim

variable {level : ℕ} {item : String × String} {source : String}

/-- A line with whitespace behind it, in two parts around the colon. -/
theorem member_line {after : List Char} (hname : Plain item.1) (hvalue : parse item.2 = .ok source)
    (hafter : ∀ c ∈ after, isWhitespace c = true) :
    member (line level item ++ after) = .ok (item.1, source) := by
  have hbefore := blank_indent (level + 1)
  have hcolon : [':'] ⊆ [',', ':'] := by decide
  have hleft : scan [':'] outside ('\n' :: indent (level + 1) ++ quoted item.1) = some outside := by
    refine scan_mono hcolon ?_
    rw [scan_append, scan_blank hbefore]
    exact closed_quoted hname
  have hpadded : parse (.ofList (' ' :: item.2.toList ++ after)) = .ok source := by
    have hspace : Blank " " := by decide
    have htext : .ofList (' ' :: item.2.toList ++ after) = " " ++ item.2 ++ .ofList after := by
      rw [← String.toList_inj]
      simp
    rw [htext]
    exact parse_padded hspace (blank_ofList.mpr hafter) hvalue
  have hright : scan [':'] outside (' ' :: item.2.toList ++ after) = some outside := by
    have hclosed := (closed_of_parse hpadded).2.2
    rw [String.toList_ofList] at hclosed
    exact scan_mono hcolon hclosed
  have hsplit : split ':' outside (line level item ++ after) =
      ['\n' :: indent (level + 1) ++ quoted item.1, ' ' :: item.2.toList ++ after] := by
    have hline : line level item ++ after =
        ('\n' :: indent (level + 1) ++ quoted item.1) ++
          ':' :: (' ' :: item.2.toList ++ after) := by
      simp [line]
    rw [hline, split_separator _ hleft, split_closed hright]
  simp only [member, hsplit, trimWhitespace_quoted _ _ hbefore, unquote_quoted, hpadded, bind,
    Except.bind, pure, Except.pure]

theorem closed_line {after : List Char} (hname : Plain item.1) (hvalue : parse item.2 = .ok source)
    (hafter : ∀ c ∈ after, isWhitespace c = true) :
    scan [','] outside (line level item ++ after) = some outside := by
  have hbefore := blank_indent (level + 1)
  have hcomma : [','] ⊆ [',', ':'] := by decide
  have hcolon : scan [','] outside [':', ' '] = some outside := by decide
  have hline : line level item ++ after =
      ('\n' :: indent (level + 1)) ++ quoted item.1 ++ [':', ' '] ++ item.2.toList ++ after := by
    simp [line]
  have htext := (closed_of_parse hvalue).2.2
  simp only [hline, scan_append, scan_mono hcomma (scan_blank hbefore),
    scan_mono hcomma (closed_quoted hname), hcolon, scan_mono hcomma htext,
    scan_mono hcomma (scan_blank hafter), Option.bind_some]

/-- The lines of the members are cut apart at the commas, and each gives its member. -/
theorem mapM_lines {items : List (String × String)} {members : List (String × String)}
    (hsome : items ≠ []) (hnames : ∀ item ∈ items, Plain item.1)
    (hmembers : List.Forall₂ (fun item member ↦ item.1 = member.1 ∧ parse item.2 = .ok member.2)
      items members) :
    (split ',' outside (lines level items)).mapM member = .ok members := by
  have hafter := blank_indent level
  induction hmembers with
  | nil => exact absurd rfl hsome
  | @cons item value items members hfirst hrest ih =>
    obtain ⟨name, source⟩ := value
    obtain ⟨rfl, hvalue⟩ := hfirst
    have hname := hnames item (by simp)
    cases items with
    | nil =>
      cases hrest
      rw [lines, split_closed (closed_line hname hvalue hafter), List.mapM_cons,
        member_line hname hvalue hafter]
      rfl
    | cons second items =>
      have hclosed : scan [','] outside (line level item) = some outside := by
        simpa using @closed_line level item source [] hname hvalue (by simp)
      have hmember : member (line level item) = .ok (item.1, source) := by
        simpa using @member_line level item source [] hname hvalue (by simp)
      rw [lines, split_separator _ hclosed, List.mapM_cons, hmember,
        ih (by simp) fun item' h ↦ hnames item' (by simp [h])]
      rfl

theorem scan_lines {items : List (String × String)} {members : List (String × String)}
    (hnames : ∀ item ∈ items, Plain item.1)
    (hmembers : List.Forall₂ (fun item member ↦ item.1 = member.1 ∧ parse item.2 = .ok member.2)
      items members) :
    scan [',', ':'] outside.deeper (lines level items) = some outside.deeper := by
  have hafter := blank_indent level
  induction hmembers with
  | nil => rfl
  | @cons item value items members hfirst hrest ih =>
    have hname := hnames item (by simp)
    cases items with
    | nil => exact scan_deeper (closed_line hname hfirst.2 hafter)
    | cons second items =>
      have hclosed : scan [','] outside (line level item) = some outside := by
        simpa using @closed_line level item value.2 [] hname hfirst.2 (by simp)
      rw [lines, scan_append, scan_deeper hclosed]
      exact ih fun item' h ↦ hnames item' (by simp [h])

theorem parse_source {source : String} (hunpadded : Unpadded source) (hsome : source ≠ "")
    (hclosed : Closed source.toList) : parse source = .ok source := by
  simp only [parse, trimWhitespace_eq_self_iff.mpr hunpadded, hsome, hclosed, ne_eq,
    not_false_eq_true, and_self, if_true]
  rfl

theorem parse_quoted {text : String} (h : Plain text) :
    parse (.ofList (quoted text)) = .ok (.ofList (quoted text)) := by
  refine parse_source (unpadded_quoted text) ?_ ?_
  · simp [quoted, ← String.toList_inj]
  · rw [String.toList_ofList]
    exact closed_quoted h

theorem parse_repr (number : ℕ) : parse (Nat.repr number) = .ok (Nat.repr number) := by
  have hdigits : ∀ c ∈ (Nat.repr number).toList, c.isDigit = true := by
    rw [Nat.toList_repr]
    exact List.all_eq_true.mp (all_isDigit_toDigits number)
  have hwhitespace {c : Char} (hc : c.isDigit = true) : isWhitespace c = false := by
    rw [← Bool.not_eq_true]
    intro hblank
    simp only [isWhitespace, Bool.or_eq_true, decide_eq_true_eq] at hblank
    obtain ((rfl | rfl) | rfl) | rfl := hblank <;> exact absurd hc (by decide)
  have hclosed : ∀ text : List Char, (∀ c ∈ text, c.isDigit = true) → Closed text := by
    intro text htext
    induction text with
    | nil => rfl
    | cons c rest ih =>
      have hother {d : Char} (hd : d.isDigit = false) : c ≠ d := by
        rintro rfl
        exact absurd (htext c (by simp)) (by simp [hd])
      have hseparator : c ∉ [',', ':'] := by
        simp [hother (d := ',') rfl, hother (d := ':') rfl]
      have hstep : step outside c = some outside := by
        simp [step, outside, hother (d := '"') rfl, hother (d := '\x7b') rfl,
          hother (d := '[') rfl, hother (d := '\x7d') rfl, hother (d := ']') rfl]
      rw [Closed, scan, if_neg fun hc ↦ hseparator hc.2, hstep]
      exact ih fun c' hc' ↦ htext c' (by simp [hc'])
  refine parse_source ⟨fun c hc ↦ ?_, fun c hc ↦ ?_⟩ ?_ (hclosed _ hdigits)
  · exact hwhitespace (hdigits c (List.mem_of_mem_head? hc))
  · exact hwhitespace (hdigits c (List.mem_of_mem_getLast? hc))
  · simp [← String.toList_inj, Nat.toDigits_ne_nil]

theorem toU64_repr {number : ℕ} (h : number < 2 ^ 64) : toU64 (Nat.repr number) = .ok number := by
  rw [toU64, Nat.toList_repr, parseU64_toDigits h]
  rfl

theorem parse_displayObject {items : List (String × String)} {members : List (String × String)}
    (hnames : ∀ item ∈ items, Plain item.1)
    (hmembers : List.Forall₂ (fun item member ↦ item.1 = member.1 ∧ parse item.2 = .ok member.2)
      items members) :
    ∃ source, parse (displayObject level items) = .ok source ∧ toObject source = .ok members := by
  have htext : (displayObject level items).toList = '\x7b' :: (lines level items ++ ['\x7d']) := by
    simp [displayObject]
  have hunpadded : Unpadded (displayObject level items) := unpadded_between rfl rfl
  have hclosed : Closed (displayObject level items).toList := by
    have hopen : scan [',', ':'] outside ['\x7b'] = some outside.deeper := by decide
    have hclose : scan [',', ':'] outside.deeper ['\x7d'] = some outside := by decide
    have hlines := @scan_lines level items members hnames hmembers
    have hpieces : (displayObject level items).toList =
        ['\x7b'] ++ (lines level items ++ ['\x7d']) := htext
    rw [Closed, hpieces, scan_append, hopen, Option.bind_some, scan_append, hlines,
      Option.bind_some, hclose]
  refine ⟨_, parse_source hunpadded ?_ hclosed, ?_⟩
  · simp [displayObject, ← String.toList_inj]
  · simp only [toObject, htext, List.getLast?_concat, List.dropLast_concat, ne_eq,
      not_true_eq_false, if_false]
    cases hmembers with
    | nil => rfl
    | @cons item member items members hfirst hrest =>
      have hquote : '"' ∈ lines level (item :: items) := by
        cases items <;> simp [lines, line, quoted]
      rw [if_neg fun hblank ↦ absurd (List.all_eq_true.mp hblank _ hquote) (by decide)]
      exact mapM_lines (by simp) hnames (.cons hfirst hrest)

end Scanner

/-- The scanner as a JSON crate. -/
def Nojson.scanner : Nojson where
  RawJsonValue := String
  reader := Scanner.reader
  parse := Scanner.parse
  displayBool flag := if flag then "true" else "false"
  displayU64 number := Nat.repr number
  displayStr text := .ofList (Scanner.quoted text)
  displayObject := Scanner.displayObject
  parse_displayBool flag := by
    cases flag
    · exact ⟨"false", by decide, by decide⟩
    · exact ⟨"true", by decide, by decide⟩
  parse_displayU64 {number} h := ⟨_, Scanner.parse_repr number, Scanner.toU64_repr h⟩
  parse_displayStr {text} h := ⟨_, Scanner.parse_quoted h, Scanner.unquote_quoted text⟩
  parse_displayObject level _ _ hnames hmembers := Scanner.parse_displayObject hnames hmembers
  parse_padded := Scanner.parse_padded
  toRawJsonOwned_of_parse {text source} h := by
    obtain ⟨rfl, -, -⟩ := Scanner.closed_of_parse h
    exact Json.exists_trimmed text

end Sukari
