import Mathlib.Data.FinEnum
import Mathlib.Data.List.Chain
import Mathlib.Tactic

/-!
# JSON as octets

The grammar of JSON over the octets of a text in UTF-8, and what a text of the grammar
looks like without regard to nesting: octets outside of strings, and strings. A comma
is never followed at once by a closing bracket, and from any place outside of a string
the rest of a text can be gone through from left to right.
-/
namespace JsonText

/-- '"' -/
def quote : UInt8 := 0x22

/-- '\\' -/
def backslash : UInt8 := 0x5c

def comma : UInt8 := 0x2c

def colon : UInt8 := 0x3a

def isWs (b : UInt8) : Bool := b == 0x20 || b == 0x09 || b == 0x0a || b == 0x0d

def isDigit (b : UInt8) : Bool := 0x30 ≤ b && b ≤ 0x39

def isHex (b : UInt8) : Bool := isDigit b || (0x41 ≤ b && b ≤ 0x46) || (0x61 ≤ b && b ≤ 0x66)

/-- What may stand behind a backslash, but for the four digits of a code point. -/
def escapes : List UInt8 := [0x22, 0x5c, 0x2f, 0x62, 0x66, 0x6e, 0x72, 0x74]

/-- `true`, `false` and `null`. -/
def literals : List (List UInt8) :=
  [[0x74, 0x72, 0x75, 0x65], [0x66, 0x61, 0x6c, 0x73, 0x65], [0x6e, 0x75, 0x6c, 0x6c]]

/-- What may stand between the quotes of a string. -/
inductive StringBody : List UInt8 → Prop where
  | nil : StringBody []
  | char {c : Char} {rest : List UInt8} (hcontrol : 0x20 ≤ c.toNat) (hquote : c.toNat ≠ 0x22)
      (hbackslash : c.toNat ≠ 0x5c) (hrest : StringBody rest) :
      StringBody (String.utf8EncodeChar c ++ rest)
  | escape {e : UInt8} {rest : List UInt8} (he : e ∈ escapes) (hrest : StringBody rest) :
      StringBody (backslash :: e :: rest)
  | unicode {code rest : List UInt8} (hlength : code.length = 4)
      (hhex : ∀ d ∈ code, isHex d = true) (hrest : StringBody rest) :
      StringBody (backslash :: 0x75 :: (code ++ rest))

/-- At least one digit. -/
def Digits (t : List UInt8) : Prop := t ≠ [] ∧ ∀ d ∈ t, isDigit d = true

/-- A zero alone, or digits that do not begin with one. -/
def IntegerPart (t : List UInt8) : Prop := t = [0x30] ∨ (Digits t ∧ t.head? ≠ some 0x30)

def FractionPart (t : List UInt8) : Prop := t = [] ∨ ∃ ds, t = 0x2e :: ds ∧ Digits ds

def ExponentPart (t : List UInt8) : Prop :=
  t = [] ∨ ∃ e sign ds, t = e :: (sign ++ ds) ∧ (e = 0x65 ∨ e = 0x45) ∧
    (sign = [] ∨ sign = [0x2b] ∨ sign = [0x2d]) ∧ Digits ds

def IsNumber (t : List UInt8) : Prop :=
  ∃ sign integer fraction exponent, t = sign ++ integer ++ fraction ++ exponent ∧
    (sign = [] ∨ sign = [0x2d]) ∧ IntegerPart integer ∧ FractionPart fraction ∧
    ExponentPart exponent

/-- The parts of a text: a value, an array with the texts of its elements, an object with
its keys and the texts of their values, and what stands between the brackets of these. -/
inductive Part where
  | value
  | array (elements : List (List UInt8))
  | object (members : List (List UInt8 × List UInt8))
  | elements (elements : List (List UInt8))
  | members (members : List (List UInt8 × List UInt8))

/-- The grammar. -/
inductive Derives : Part → List UInt8 → Prop where
  | literal {t : List UInt8} (h : t ∈ literals) : Derives .value t
  | number {t : List UInt8} (h : IsNumber t) : Derives .value t
  | string {s : List UInt8} (h : StringBody s) : Derives .value (quote :: (s ++ [quote]))
  | array {vs : List (List UInt8)} {t : List UInt8} (h : Derives (.array vs) t) : Derives .value t
  | object {ms : List (List UInt8 × List UInt8)} {t : List UInt8} (h : Derives (.object ms) t) :
      Derives .value t
  | emptyArray {ws : List UInt8} (hws : ∀ b ∈ ws, isWs b = true) :
      Derives (.array []) (0x5b :: (ws ++ [0x5d]))
  | brackets {vs : List (List UInt8)} {t : List UInt8} (h : Derives (.elements vs) t) :
      Derives (.array vs) (0x5b :: (t ++ [0x5d]))
  | emptyObject {ws : List UInt8} (hws : ∀ b ∈ ws, isWs b = true) :
      Derives (.object []) (0x7b :: (ws ++ [0x7d]))
  | braces {ms : List (List UInt8 × List UInt8)} {t : List UInt8} (h : Derives (.members ms) t) :
      Derives (.object ms) (0x7b :: (t ++ [0x7d]))
  | element {before v after : List UInt8} (hbefore : ∀ b ∈ before, isWs b = true)
      (hv : Derives .value v) (hafter : ∀ b ∈ after, isWs b = true) :
      Derives (.elements [v]) (before ++ (v ++ after))
  | moreElements {before v after t : List UInt8} {vs : List (List UInt8)}
      (hbefore : ∀ b ∈ before, isWs b = true) (hv : Derives .value v)
      (hafter : ∀ b ∈ after, isWs b = true) (h : Derives (.elements vs) t) :
      Derives (.elements (v :: vs)) (before ++ (v ++ (after ++ comma :: t)))
  | member {before key behind t v : List UInt8} (hbefore : ∀ b ∈ before, isWs b = true)
      (hkey : StringBody key) (hbehind : ∀ b ∈ behind, isWs b = true)
      (hv : Derives (.elements [v]) t) :
      Derives (.members [(key, v)]) (before ++ quote :: (key ++ quote :: (behind ++ colon :: t)))
  | moreMembers {before key behind t v u : List UInt8} {ms : List (List UInt8 × List UInt8)}
      (hbefore : ∀ b ∈ before, isWs b = true) (hkey : StringBody key)
      (hbehind : ∀ b ∈ behind, isWs b = true) (hv : Derives (.elements [v]) t)
      (h : Derives (.members ms) u) :
      Derives (.members ((key, v) :: ms))
        (before ++ quote :: (key ++ quote :: (behind ++ colon :: (t ++ comma :: u))))

/-! ## Strings -/

theorem encode_ascii {c : Char} (h : c.toNat < 0x80) :
    String.utf8EncodeChar c = [UInt8.ofNat c.toNat] := by
  have hle : c.val.toNat ≤ 127 := Nat.le_of_lt_succ h
  simp only [String.utf8EncodeChar, if_pos hle]
  rfl

theorem encode_high {c : Char} (h : ¬ c.toNat < 0x80) :
    ∀ b ∈ String.utf8EncodeChar c, 0x80 ≤ b := by
  have hgt : ¬ c.val.toNat ≤ 127 := fun hle => h (Nat.lt_succ_of_le hle)
  have hoctet : ∀ n, 128 ≤ n % 256 → (0x80 : UInt8) ≤ UInt8.ofNat n := by
    intro n hn
    rw [UInt8.le_iff_toNat_le, UInt8.toNat_ofNat']
    exact hn
  intro b hb
  simp only [String.utf8EncodeChar, if_neg hgt] at hb
  split_ifs at hb
  all_goals
    simp only [List.mem_cons, List.not_mem_nil, or_false] at hb
    rcases hb with rfl | rfl | rfl | rfl | rfl
  all_goals
    apply hoctet
    omega

/-- A printable character of ASCII, neither a quote nor a backslash. -/
def isPlain (b : UInt8) : Bool := 0x20 ≤ b && b < 0x80 && b != quote && b != backslash

theorem StringBody.cons {b : UInt8} {rest : List UInt8} (hb : isPlain b = true)
    (hrest : StringBody rest) : StringBody (b :: rest) := by
  simp only [isPlain, Bool.and_eq_true, decide_eq_true_eq, bne_iff_ne, UInt8.le_iff_toNat_le,
    UInt8.lt_iff_toNat_lt, ne_eq, ← UInt8.toNat_inj, quote, backslash] at hb
  obtain ⟨⟨⟨hcontrol, hascii⟩, hquote⟩, hbackslash⟩ := hb
  have hcode : (Char.ofUInt8 b).toNat = b.toNat := rfl
  have hencode : String.utf8EncodeChar (Char.ofUInt8 b) = [b] := by
    rw [encode_ascii (hcode ▸ hascii), hcode, UInt8.ofNat_toNat]
  have hbody := StringBody.char (c := Char.ofUInt8 b) hcontrol hquote hbackslash hrest
  rw [hencode] at hbody
  exact hbody

theorem StringBody.of_plain {s : List UInt8} (h : ∀ b ∈ s, isPlain b = true) : StringBody s := by
  induction s with
  | nil => exact .nil
  | cons b s ih =>
    obtain ⟨hb, hs⟩ := List.forall_mem_cons.mp h
    exact .cons hb (ih hs)

/-- The octets of a character that may stand in a string by itself are no quotes. -/
theorem encode_ne_quote {c : Char} (hquote : c.toNat ≠ 0x22) :
    ∀ b ∈ String.utf8EncodeChar c, b ≠ quote := by
  intro b hb
  by_cases hascii : c.toNat < 0x80
  · rw [encode_ascii hascii, List.mem_singleton] at hb
    subst hb
    intro heq
    have hvalue := congrArg UInt8.toNat heq
    rw [UInt8.toNat_ofNat', Nat.mod_eq_of_lt (by omega)] at hvalue
    exact hquote hvalue
  · have hhigh := encode_high hascii b hb
    rintro rfl
    exact absurd hhigh (by decide)

/-- A character of ASCII at the front of a string other than a backslash stands for itself. -/
theorem StringBody.tail {b : UInt8} {rest : List UInt8} (h : StringBody (b :: rest))
    (hascii : b < 0x80) (hb : b ≠ backslash) : b ≠ quote ∧ StringBody rest := by
  generalize hs : b :: rest = s at h
  cases h with
  | nil => cases hs
  | @char c rest' hcontrol hquote hbackslash hrest =>
    by_cases hc : c.toNat < 0x80
    · have hmem := encode_ne_quote hquote
      rw [encode_ascii hc] at hs hmem
      obtain ⟨rfl, rfl⟩ := List.cons.inj hs
      exact ⟨hmem _ (List.mem_singleton_self _), hrest⟩
    · cases hoctets : String.utf8EncodeChar c with
      | nil =>
        have hlength := String.length_utf8EncodeChar c
        rw [hoctets] at hlength
        exact absurd hlength.symm (Nat.ne_of_gt c.utf8Size_pos)
      | cons first others =>
        have hhigh := encode_high hc first (by rw [hoctets]; exact List.mem_cons_self ..)
        rw [hoctets] at hs
        obtain ⟨rfl, -⟩ := List.cons.inj hs
        exact absurd hascii (UInt8.not_lt.mpr hhigh)
  | escape => exact absurd (List.cons.inj hs).1 hb
  | unicode => exact absurd (List.cons.inj hs).1 hb

/-- A quote within a string stands behind a backslash. -/
def Escaped (a b : UInt8) : Prop := b = quote → a = backslash

theorem escaped_append {front rest : List UInt8} (hfront : ∀ b ∈ front, b ≠ quote)
    (hhead : rest.head? ≠ some quote) (hrest : rest.IsChain Escaped) :
    (front ++ rest).head? ≠ some quote ∧ (front ++ rest).IsChain Escaped := by
  induction front with
  | nil => exact ⟨hhead, hrest⟩
  | cons b front ih =>
    obtain ⟨hb, hfront⟩ := List.forall_mem_cons.mp hfront
    obtain ⟨hnext, hchain⟩ := ih hfront
    refine ⟨fun h => hb (Option.some.inj h), ?_⟩
    rw [List.cons_append, List.isChain_cons]
    exact ⟨fun c hc hquote => absurd (hquote ▸ hc) hnext, hchain⟩

theorem StringBody.escaped {s : List UInt8} (h : StringBody s) :
    s.head? ≠ some quote ∧ s.IsChain Escaped := by
  induction h with
  | nil => simp
  | char hcontrol hquote hbackslash hrest ih =>
    exact escaped_append (encode_ne_quote hquote) ih.1 ih.2
  | @escape e rest he hrest ih =>
    refine ⟨by simp [backslash, quote], ?_⟩
    rw [List.isChain_cons, List.isChain_cons]
    refine ⟨fun _ _ _ => rfl, fun c hc hquote => ?_, ih.2⟩
    exact absurd (hquote ▸ hc) ih.1
  | @unicode code rest hlength hhex hrest ih =>
    have hcode : ∀ b ∈ 0x75 :: code, b ≠ quote := by
      intro b hb
      rcases List.mem_cons.mp hb with rfl | hb
      · decide
      · rintro rfl
        exact absurd (hhex quote hb) (by decide)
    obtain ⟨-, hchain⟩ := escaped_append hcode ih.1 ih.2
    refine ⟨by simp [backslash, quote], ?_⟩
    rw [List.isChain_cons]
    exact ⟨fun _ _ _ => rfl, hchain⟩

/-! ## Texts from left to right -/

/-- The octets that a text has outside of its strings, besides white space and digits. -/
def outsideOctets : List UInt8 :=
  [0x2b, 0x2d, 0x2e, 0x45, 0x5b, 0x5d, 0x7b, 0x7d, 0x2c, 0x3a,
    0x74, 0x72, 0x75, 0x65, 0x66, 0x61, 0x6c, 0x73, 0x6e]

def isOutside (b : UInt8) : Bool := isWs b || isDigit b || outsideOctets.contains b

/-- A text as a row of octets and strings; the flag says that a comma stands before. -/
inductive Lexes : Bool → List UInt8 → Prop where
  | nil {behindComma : Bool} : Lexes behindComma []
  | octet {behindComma : Bool} {b : UInt8} {t : List UInt8} (hb : isOutside b = true)
      (hclosing : behindComma = true → b ≠ 0x5d) (ht : Lexes (b == comma) t) :
      Lexes behindComma (b :: t)
  | string {behindComma : Bool} {s t : List UInt8} (hs : StringBody s) (ht : Lexes false t) :
      Lexes behindComma (quote :: (s ++ quote :: t))

/-- Octets that say nothing about what stands beside them. -/
def isNeutral (b : UInt8) : Bool := isOutside b && b != 0x5d && b != comma

theorem Lexes.neutral {front rest : List UInt8} (hfront : ∀ b ∈ front, isNeutral b = true)
    (hrest : Lexes false rest) : Lexes false (front ++ rest) := by
  induction front with
  | nil => exact hrest
  | cons b front ih =>
    obtain ⟨hb, hfront⟩ := List.forall_mem_cons.mp hfront
    simp only [isNeutral, Bool.and_eq_true, bne_iff_ne] at hb
    have hcomma : (b == comma) = false := by simpa using hb.2
    exact .octet hb.1.1 (fun h => absurd h Bool.false_ne_true) (by rw [hcomma]; exact ih hfront)

/-- A word of such octets may stand behind a comma. -/
theorem Lexes.word {front rest : List UInt8} (hne : front ≠ [])
    (hfront : ∀ b ∈ front, isNeutral b = true) (hrest : Lexes false rest) (behindComma : Bool) :
    Lexes behindComma (front ++ rest) := by
  obtain ⟨b, front, rfl⟩ := List.exists_cons_of_ne_nil hne
  obtain ⟨hb, hothers⟩ := List.forall_mem_cons.mp hfront
  simp only [isNeutral, Bool.and_eq_true, bne_iff_ne] at hb
  have hcomma : (b == comma) = false := by simpa using hb.2
  exact .octet hb.1.1 (fun _ => hb.1.2) (by rw [hcomma]; exact Lexes.neutral hothers hrest)

theorem neutral_of_ws : ∀ b : UInt8, isWs b = true → isNeutral b = true := by decide +kernel

theorem neutral_of_digit : ∀ b : UInt8, isDigit b = true → isNeutral b = true := by
  decide +kernel

/-- White space may stand anywhere outside of a string. -/
theorem Lexes.space {ws rest : List UInt8} (hws : ∀ b ∈ ws, isWs b = true) {behindComma : Bool}
    (hrest : Lexes false rest) (hnext : Lexes behindComma rest) :
    Lexes behindComma (ws ++ rest) := by
  by_cases hne : ws = []
  · rw [hne]
    exact hnext
  · exact .word hne (fun b hb => neutral_of_ws b (hws b hb)) hrest behindComma

/-- A closing bracket behind anything but a comma. -/
theorem Lexes.closing {rest : List UInt8} (hrest : Lexes false rest) :
    Lexes false (0x5d :: rest) :=
  .octet (by decide) (fun h => absurd h Bool.false_ne_true) hrest

/-- An opening bracket, a brace or a colon. -/
theorem Lexes.mark {b : UInt8} {rest : List UInt8} (hb : isNeutral b = true)
    (hrest : Lexes false rest) (behindComma : Bool) : Lexes behindComma (b :: rest) :=
  .word (List.cons_ne_nil b []) (by simpa using hb) hrest behindComma

theorem Lexes.comma {rest : List UInt8} (hrest : Lexes true rest) :
    Lexes false (JsonText.comma :: rest) :=
  .octet (by decide) (fun h => absurd h Bool.false_ne_true) hrest

theorem digits_neutral {ds : List UInt8} (h : Digits ds) : ∀ b ∈ ds, isNeutral b = true :=
  fun b hb => neutral_of_digit b (h.2 b hb)

theorem IsNumber.neutral {t : List UInt8} (h : IsNumber t) :
    t ≠ [] ∧ ∀ b ∈ t, isNeutral b = true := by
  obtain ⟨sign, integer, fraction, exponent, rfl, hsign, hinteger, hfraction, hexponent⟩ := h
  have hsign : ∀ b ∈ sign, isNeutral b = true := by
    rcases hsign with rfl | rfl
    · simp
    · simp only [List.forall_mem_singleton]
      decide
  have hinteger : integer ≠ [] ∧ ∀ b ∈ integer, isNeutral b = true := by
    rcases hinteger with rfl | ⟨hdigits, -⟩
    · simp only [List.forall_mem_singleton]
      decide
    · exact ⟨hdigits.1, digits_neutral hdigits⟩
  have hfraction : ∀ b ∈ fraction, isNeutral b = true := by
    rcases hfraction with rfl | ⟨ds, rfl, hds⟩
    · simp
    · exact List.forall_mem_cons.mpr ⟨by decide, digits_neutral hds⟩
  have hexponent : ∀ b ∈ exponent, isNeutral b = true := by
    rcases hexponent with rfl | ⟨e, mark, ds, rfl, he, hmark, hds⟩
    · simp
    · refine List.forall_mem_cons.mpr ⟨?_, List.forall_mem_append.mpr ⟨?_, digits_neutral hds⟩⟩
      · rcases he with rfl | rfl <;> decide
      · rcases hmark with rfl | rfl | rfl
        · simp
        · simp only [List.forall_mem_singleton]
          decide
        · simp only [List.forall_mem_singleton]
          decide
  refine ⟨by simp [hinteger.1], ?_⟩
  simp only [List.forall_mem_append]
  exact ⟨⟨⟨hsign, hinteger.2⟩, hfraction⟩, hexponent⟩

/-- Whatever the grammar derives can be gone through from left to right. -/
theorem Derives.lexes {part : Part} {t : List UInt8} (h : Derives part t) {rest : List UInt8}
    (hrest : Lexes false rest) (behindComma : Bool) : Lexes behindComma (t ++ rest) := by
  induction h generalizing rest behindComma with
  | @literal t h =>
    have hword : t ≠ [] ∧ ∀ b ∈ t, isNeutral b = true := by
      simp only [literals, List.mem_cons, List.not_mem_nil, or_false] at h
      rcases h with rfl | rfl | rfl
      all_goals exact ⟨List.cons_ne_nil _ _, List.all_eq_true.mp (by decide)⟩
    exact .word hword.1 hword.2 hrest behindComma
  | number h => exact .word h.neutral.1 h.neutral.2 hrest behindComma
  | string h =>
    rw [List.cons_append, List.append_assoc]
    exact .string h hrest
  | array _ ih => exact ih hrest behindComma
  | object _ ih => exact ih hrest behindComma
  | emptyArray hws =>
    rw [List.cons_append, List.append_assoc]
    exact .mark (by decide) (.space hws hrest.closing hrest.closing) behindComma
  | brackets _ ih =>
    rw [List.cons_append, List.append_assoc]
    exact .mark (by decide) (ih hrest.closing false) behindComma
  | emptyObject hws =>
    rw [List.cons_append, List.append_assoc]
    have hclosed : Lexes false (0x7d :: rest) := .mark (by decide) hrest false
    exact .mark (by decide) (.space hws hclosed hclosed) behindComma
  | braces _ ih =>
    rw [List.cons_append, List.append_assoc]
    exact .mark (by decide) (ih (.mark (by decide) hrest false) false) behindComma
  | element hbefore _ hafter ih =>
    rw [List.append_assoc, List.append_assoc]
    have hbehind := Lexes.space hafter hrest hrest
    exact .space hbefore (ih hbehind false) (ih hbehind behindComma)
  | moreElements hbefore _ hafter _ ihv ih =>
    simp only [List.append_assoc, List.cons_append]
    have hcomma := (ih hrest true).comma
    have hbehind := Lexes.space hafter hcomma hcomma
    exact .space hbefore (ihv hbehind false) (ihv hbehind behindComma)
  | member hbefore hkey hbehind _ ih =>
    simp only [List.append_assoc, List.cons_append]
    have hcolon : Lexes false (colon :: _) := .mark (by decide) (ih hrest false) false
    have hname := Lexes.space hbehind hcolon hcolon
    exact .space hbefore (.string hkey hname) (.string hkey hname)
  | moreMembers hbefore hkey hbehind _ _ ihv ih =>
    simp only [List.append_assoc, List.cons_append]
    have hcolon : Lexes false (colon :: _) :=
      .mark (by decide) (ihv (ih hrest true).comma false) false
    have hname := Lexes.space hbehind hcolon hcolon
    exact .space hbefore (.string hkey hname) (.string hkey hname)

/-! ## Going through a text -/

/-- The text goes on outside of a string, or inside of one. -/
def Continues (inside : Bool) (t : List UInt8) : Prop :=
  if inside then ∃ s rest, StringBody s ∧ t = s ++ quote :: rest ∧ Lexes false rest
  else ∃ behindComma, Lexes behindComma t

/-- A quote enters a string or leaves it. -/
def enters (inside : Bool) (b : UInt8) : Bool := if b = quote then !inside else inside

theorem Continues.step {inside : Bool} {b : UInt8} {t : List UInt8} (h : Continues inside (b :: t))
    (hascii : b < 0x80) (hb : b ≠ backslash) : Continues (enters inside b) t := by
  cases inside with
  | true =>
    obtain ⟨s, rest, hs, htext, hrest⟩ := h
    cases s with
    | nil =>
      obtain ⟨rfl, rfl⟩ := List.cons.inj htext
      exact ⟨false, hrest⟩
    | cons c s =>
      obtain ⟨rfl, rfl⟩ := List.cons.inj htext
      obtain ⟨hquote, hs⟩ := hs.tail hascii hb
      rw [enters, if_neg hquote]
      exact ⟨s, rest, hs, rfl, hrest⟩
  | false =>
    obtain ⟨behindComma, h⟩ := h
    cases h with
    | octet hout _ ht =>
      have hquote : b ≠ quote := by
        rintro rfl
        exact absurd hout (by decide)
      rw [enters, if_neg hquote]
      exact ⟨_, ht⟩
    | @string _ s rest hs hrest => exact ⟨s, rest, hs, rfl, hrest⟩

/-- An octet of ASCII that is no backslash. -/
def isSkipped (b : UInt8) : Bool := b < 0x80 && b != backslash

/-- A piece of such octets, behind which a text goes on outside of a string or inside of
one. -/
def Leads (inside : Bool) (piece : List UInt8) (after : Bool) : Prop :=
  piece.all isSkipped = true ∧ piece.foldl enters inside = after

instance (inside : Bool) (piece : List UInt8) (after : Bool) :
    Decidable (Leads inside piece after) :=
  inferInstanceAs (Decidable (_ ∧ _))

theorem Leads.append {inside between after : Bool} {piece more : List UInt8}
    (hpiece : Leads inside piece between) (hmore : Leads between more after) :
    Leads inside (piece ++ more) after := by
  refine ⟨by rw [List.all_append, hpiece.1, hmore.1]; rfl, ?_⟩
  rw [List.foldl_append, hpiece.2, hmore.2]

/-- A piece without quotes neither enters a string nor leaves one. -/
theorem Leads.of_plain {piece : List UInt8} (h : ∀ b ∈ piece, isPlain b = true) (inside : Bool) :
    Leads inside piece inside := by
  induction piece with
  | nil => exact ⟨rfl, rfl⟩
  | cons b piece ih =>
    obtain ⟨hb, hpiece⟩ := List.forall_mem_cons.mp h
    simp only [isPlain, Bool.and_eq_true, decide_eq_true_eq, bne_iff_ne] at hb
    obtain ⟨hskipped, hrest⟩ := ih hpiece
    refine ⟨by simp [isSkipped, hb, hskipped], ?_⟩
    rw [List.foldl_cons, enters, if_neg hb.1.2, hrest]

/-- A piece is gone through octet by octet. -/
theorem Continues.skip {inside after : Bool} {piece t : List UInt8}
    (h : Continues inside (piece ++ t)) (hpiece : Leads inside piece after) :
    Continues after t := by
  induction piece generalizing inside with
  | nil => exact hpiece.2 ▸ h
  | cons b piece ih =>
    obtain ⟨hfirst, hrest⟩ := hpiece
    rw [List.all_cons, Bool.and_eq_true, isSkipped, Bool.and_eq_true, decide_eq_true_eq,
      bne_iff_ne] at hfirst
    exact ih (h.step hfirst.1.1 hfirst.1.2) ⟨hfirst.2, hrest⟩

/-- No comma is followed by a closing bracket at once. -/
theorem Continues.trailing {t : List UInt8} : ¬ Continues false (comma :: 0x5d :: t) := by
  rintro ⟨behindComma, h⟩
  cases h with
  | octet _ _ ht =>
    cases ht with
    | octet _ hclosing _ => exact hclosing rfl rfl

/-- No string begins before a letter that is not one of the literals'. -/
theorem Continues.letter {b : UInt8} {t : List UInt8} (hout : isOutside b = false)
    (hb : b ≠ quote) : ¬ Continues false (b :: t) := by
  rintro ⟨behindComma, h⟩
  cases h with
  | octet h => exact Bool.false_ne_true (hout.symm.trans h)
  | string => exact hb rfl

/-- A string without quotes of its own is whole, if behind it there is a comma and then
a string that does not begin like a literal. -/
theorem Continues.name {name t : List UInt8} {b : UInt8} (hname : quote ∉ name)
    (h : Continues true (name ++ t)) (hbehind : [quote, comma, quote, b] <+: t)
    (hout : isOutside b = false) (hb : b ≠ quote) : StringBody name ∧ Continues true t := by
  obtain ⟨t, rfl⟩ := hbehind
  obtain ⟨s, rest, hs, htext, hrest⟩ := h
  obtain ⟨hhead, hchain⟩ := hs.escaped
  rcases List.append_eq_append_iff.mp htext with ⟨more, rfl, hmore⟩ | ⟨more, rfl, hmore⟩
  · cases more with
    | nil =>
      rw [List.append_nil] at hs
      exact ⟨hs, [], rest, .nil, hmore, hrest⟩
    | cons c more =>
      -- the string goes on behind the name, beyond a quote that is escaped
      obtain ⟨rfl, hbehind⟩ := List.cons.inj hmore
      rcases more with - | ⟨d, - | ⟨e, more⟩⟩
      · exact absurd (List.cons.inj hbehind).1 (by decide)
      · obtain ⟨-, hquote⟩ := List.cons.inj hbehind
        obtain ⟨-, rfl⟩ := List.cons.inj hquote
        exact absurd ⟨false, hrest⟩ (Continues.letter hout hb)
      · obtain ⟨rfl, hquote⟩ := List.cons.inj hbehind
        obtain ⟨rfl, -⟩ := List.cons.inj hquote
        have hinner := (List.isChain_append.mp hchain).2.1
        rw [List.isChain_cons_cons, List.isChain_cons_cons] at hinner
        exact absurd (hinner.2.1 rfl) (by decide)
  · cases more with
    | nil =>
      rw [List.append_nil]
      exact ⟨hs, [], rest, .nil, hmore.symm, hrest⟩
    | cons c more =>
      obtain ⟨rfl, -⟩ := List.cons.inj hmore
      exact absurd (by simp) hname

/-! ## Texts of values -/

def memberText (member : List UInt8 × List UInt8) : List UInt8 :=
  quote :: (member.1 ++ quote :: colon :: member.2)

/-- Texts with commas between them. -/
def separated : List (List UInt8) → List UInt8
  | [] => []
  | [v] => v
  | v :: w :: vs => v ++ comma :: separated (w :: vs)

theorem separated_cons {v : List UInt8} {vs : List (List UInt8)} (hne : vs ≠ []) :
    separated (v :: vs) = v ++ comma :: separated vs := by
  cases vs with
  | nil => exact absurd rfl hne
  | cons w vs => rfl

theorem derives_elements {vs : List (List UInt8)} (hne : vs ≠ [])
    (hvs : ∀ v ∈ vs, Derives .value v) : Derives (.elements vs) (separated vs) := by
  have hspace : ∀ b ∈ ([] : List UInt8), isWs b = true := by simp
  induction vs with
  | nil => exact absurd rfl hne
  | cons v vs ih =>
    obtain ⟨hv, hothers⟩ := List.forall_mem_cons.mp hvs
    cases vs with
    | nil => simpa [separated] using Derives.element hspace hv hspace
    | cons w vs =>
      have hrest := ih (List.cons_ne_nil w vs) hothers
      simpa [separated] using Derives.moreElements hspace hv hspace hrest

theorem derives_members {ms : List (List UInt8 × List UInt8)} (hne : ms ≠ [])
    (hkeys : ∀ m ∈ ms, StringBody m.1) (hvalues : ∀ m ∈ ms, Derives .value m.2) :
    Derives (.members ms) (separated (ms.map memberText)) := by
  have hspace : ∀ b ∈ ([] : List UInt8), isWs b = true := by simp
  induction ms with
  | nil => exact absurd rfl hne
  | cons m ms ih =>
    obtain ⟨hkey, hkeys⟩ := List.forall_mem_cons.mp hkeys
    obtain ⟨hv, hvalues⟩ := List.forall_mem_cons.mp hvalues
    have hvalue : Derives (.elements [m.2]) m.2 := by
      simpa using Derives.element hspace hv hspace
    cases ms with
    | nil => simpa [separated, memberText] using Derives.member hspace hkey hspace hvalue
    | cons n ms =>
      have hrest := ih (List.cons_ne_nil n ms) hkeys hvalues
      simpa [separated, memberText] using
        Derives.moreMembers hspace hkey hspace hvalue hrest

end JsonText
