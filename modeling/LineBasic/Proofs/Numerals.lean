import LineBasic.Proofs.Spaced
import LineBasic.Value.Builtin

/-! Numerals. A numeral is an optional sign, digits with at most one point among them and, where there is
a digit, an optional exponent. Of the numerals that a text starts with one is the longest, and it is the
one that VAL reads: what follows it is without influence, but for a `D` right behind the mantissa, which
makes the number a double even if no exponent follows. -/

namespace LineBasic

namespace Number

/-- A sign in front of digits, which may be left out. -/
inductive Sign where
  | absent
  | plus
  | minus
  deriving Repr, DecidableEq

def Sign.text : Sign → List Char
  | absent => []
  | plus => ['+']
  | minus => ['-']

/-- The exponent of a numeral: its mark, a sign and at least one digit. -/
@[ext]
structure Exponent where
  mark : Char
  sign : Sign
  digits : List Char
  mark_eq : mark = 'E' ∨ mark = 'D'
  digits_ne : digits ≠ []
  isDigit : ∀ c ∈ digits, c.isDigit = true

namespace Exponent

def text (x : Exponent) : List Char := x.mark :: (x.sign.text ++ x.digits)

def value (x : Exponent) : Int :=
  if x.sign = .minus then -(digitsValue x.digits : Int) else digitsValue x.digits

end Exponent

/-- A numeral by its parts. The digits behind a point may be none, as may those in front of it; only a
numeral with a digit has an exponent. -/
@[ext]
structure Numeral where
  sign : Sign
  whole : List Char
  fraction : Option (List Char)
  exponent : Option Exponent
  isDigit_whole : ∀ c ∈ whole, c.isDigit = true
  isDigit_fraction : ∀ c ∈ fraction.getD [], c.isDigit = true
  digits_ne : exponent ≠ none → whole ++ fraction.getD [] ≠ []

/-- The point, if there is one, and the digits behind it. -/
def pointText : Option (List Char) → List Char
  | none => []
  | some digits => '.' :: digits

/-- The text of an exponent that may be left out. -/
def powerText : Option Exponent → List Char
  | none => []
  | some x => x.text

namespace Numeral

variable (n : Numeral)

def digits : List Char := n.whole ++ n.fraction.getD []

def mantissa : List Char := n.whole ++ pointText n.fraction

def text : List Char := n.sign.text ++ (n.mantissa ++ powerText n.exponent)

/-- The number that a numeral denotes: its digits, times ten to the power of the exponent less one for
each digit behind the point, with its sign. -/
def written : Written :=
  ⟨n.sign == .minus,
    ⟨digitsValue n.digits, (n.exponent.map Exponent.value).getD 0 - (n.fraction.getD []).length⟩⟩

/-- Whether a numeral is the longest one that a text starts with. -/
def IsLongest (source : List Char) : Prop :=
  n.text <+: source ∧ ∀ m : Numeral, m.text <+: source → m.text.length ≤ n.text.length

end Numeral

/-- Whether a text does not go on with a digit. -/
def NoDigit (text : List Char) : Prop := ∀ c ∈ text.head?, c.isDigit = false

section Parts

variable {digits digits' tail tail' rest : List Char}

theorem noDigit_dropWhile (text : List Char) : NoDigit (text.dropWhile Char.isDigit) := by
  intro c hc
  have hnot := List.head?_dropWhile_not Char.isDigit text
  rw [Option.mem_def.mp hc] at hnot
  exact hnot

/-- Digits in front of two texts. Where the second text does not go on with a digit, the first digits are
the same ones, or they are fewer and more follow. -/
theorem compare_digits (h : ∀ c ∈ digits, c.isDigit = true) (h' : ∀ c ∈ digits', c.isDigit = true)
    (htail : NoDigit tail) (heq : digits' ++ tail' = digits ++ tail) :
    digits' = digits ∧ tail' = tail ∨
      digits'.length < digits.length ∧ ∃ c ∈ tail'.head?, c.isDigit = true := by
  rcases List.append_eq_append_iff.mp heq with ⟨more, rfl, rfl⟩ | ⟨more, rfl, rfl⟩
  · cases more with
    | nil => exact .inl ⟨(List.append_nil _).symm, rfl⟩
    | cons c more =>
        refine .inr ⟨by simp, c, rfl, h c ?_⟩
        exact List.mem_append_right _ List.mem_cons_self
  · cases more with
    | nil => exact .inl ⟨List.append_nil _, rfl⟩
    | cons c more =>
        have hc := h' c (List.mem_append_right _ List.mem_cons_self)
        rw [htail c rfl] at hc
        cases hc

theorem Exponent.mark_not_isDigit (x : Exponent) : x.mark.isDigit = false := by
  rcases x.mark_eq with h | h <;> (rw [h]; decide)

theorem Exponent.mark_ne_point (x : Exponent) : x.mark ≠ '.' := by
  rcases x.mark_eq with h | h <;> (rw [h]; decide)

theorem noDigit_powerText (x : Option Exponent) (h : NoDigit tail) : NoDigit (powerText x ++ tail) := by
  cases x with
  | none => exact h
  | some x =>
      intro c hc
      obtain rfl : x.mark = c := Option.some.inj hc
      exact x.mark_not_isDigit

theorem noDigit_pointText (fraction : Option (List Char)) (h : NoDigit tail) :
    NoDigit (pointText fraction ++ tail) := by
  cases fraction with
  | none => exact h
  | some digits =>
      intro c hc
      obtain rfl : '.' = c := Option.some.inj hc
      rfl

theorem ne_sign_of_isDigit {c : Char} (h : c.isDigit = true) : c ≠ '+' ∧ c ≠ '-' := by
  constructor <;> (rintro rfl; cases h)

/-- In front of digits a sign can be told from no sign. -/
theorem Sign.eq_of_digits {sign sign' : Sign} (hdigits : digits ≠ []) (hdigits' : digits' ≠ [])
    (h : ∀ c ∈ digits, c.isDigit = true) (h' : ∀ c ∈ digits', c.isDigit = true)
    (heq : sign'.text ++ (digits' ++ tail') = sign.text ++ (digits ++ tail)) : sign' = sign := by
  obtain ⟨c, more, rfl⟩ := List.exists_cons_of_ne_nil hdigits
  obtain ⟨d, others, rfl⟩ := List.exists_cons_of_ne_nil hdigits'
  obtain ⟨hplus, hminus⟩ := ne_sign_of_isDigit (h c List.mem_cons_self)
  obtain ⟨hplus', hminus'⟩ := ne_sign_of_isDigit (h' d List.mem_cons_self)
  have hhead := congrArg List.head? heq
  cases sign <;> cases sign' <;> first
    | rfl
    | exact absurd (Option.some.inj hhead) hplus'
    | exact absurd (Option.some.inj hhead) hminus'
    | exact absurd (Option.some.inj hhead).symm hplus
    | exact absurd (Option.some.inj hhead).symm hminus
    | exact absurd (Option.some.inj hhead) (by decide)

/-- Exponents in front of two texts. Where the second one cannot be longer, it is the same as the first
or that one is shorter. -/
theorem compare_exponents {x x' : Option Exponent} (htail : NoDigit tail)
    (hnone : x = none → ∀ y : Exponent, ¬y.text <+: tail)
    (heq : powerText x' ++ tail' = powerText x ++ tail) :
    x' = x ∨ (powerText x').length < (powerText x).length := by
  cases x with
  | none =>
      cases x' with
      | none => exact .inl rfl
      | some y => exact absurd ⟨tail', heq⟩ (hnone rfl y)
  | some x =>
      cases x' with
      | none => exact .inr (Nat.zero_lt_succ _)
      | some y =>
          simp only [powerText, Exponent.text, List.cons_append, List.append_assoc, List.cons.injEq] at heq
          obtain ⟨hmark, heq⟩ := heq
          have hsign := Sign.eq_of_digits x.digits_ne y.digits_ne x.isDigit y.isDigit heq
          rw [hsign] at heq
          rcases compare_digits x.isDigit y.isDigit htail (List.append_cancel_left heq) with
            ⟨hdigits, -⟩ | ⟨hshorter, -⟩
          · exact .inl (congrArg some (Exponent.ext hmark hsign hdigits))
          · refine .inr ?_
            simp only [powerText, Exponent.text, List.length_cons, List.length_append, hsign]
            omega

end Parts

namespace Numeral

variable {m n : Numeral} {rest tail : List Char}

theorem exponent_eq_none (h : n.digits = []) : n.exponent = none := by
  by_contra hne
  exact n.digits_ne hne h

theorem isDigit_of_fraction {digits : List Char} (h : n.fraction = some digits) :
    ∀ c ∈ digits, c.isDigit = true := by
  have hall := n.isDigit_fraction
  rwa [h] at hall

/-- Behind its sign a numeral starts with a digit or with its point; without either it is at its end. -/
theorem head_mantissa (n : Numeral) (h : n.exponent = none → tail = []) :
    ∀ c ∈ (n.mantissa ++ tail).head?, c.isDigit = true ∨ c = '.' := by
  intro c hc
  cases hwhole : n.whole with
  | cons d more =>
      rw [mantissa, hwhole] at hc
      obtain rfl : d = c := Option.some.inj hc
      exact .inl (n.isDigit_whole d (hwhole ▸ List.mem_cons_self))
  | nil =>
      cases hfraction : n.fraction with
      | some digits =>
          rw [mantissa, hwhole, hfraction] at hc
          exact .inr (Option.some.inj hc).symm
      | none =>
          have hexponent : n.exponent = none := exponent_eq_none (by rw [digits, hwhole, hfraction]; rfl)
          rw [mantissa, hwhole, hfraction, h hexponent] at hc
          cases hc

theorem head_ne_sign (n : Numeral) (tail : List Char) (h : n.exponent = none → tail = []) :
    ∀ c ∈ (n.mantissa ++ tail).head?, c ≠ '+' ∧ c ≠ '-' := by
  intro c hc
  rcases n.head_mantissa h c hc with hdigit | rfl
  · exact ne_sign_of_isDigit hdigit
  · decide

/-- Whether a numeral cannot be read any further: what follows goes on with nothing that could be its
sign, its next digit, its point or its exponent. -/
structure Ends (n : Numeral) (rest : List Char) : Prop where
  sign : n.sign = .absent → ∀ c ∈ (n.text ++ rest).head?, c ≠ '+' ∧ c ≠ '-'
  digit : NoDigit rest
  point : n.fraction = none → n.exponent = none → ∀ c ∈ rest.head?, c ≠ '.'
  exponent : n.digits ≠ [] → n.exponent = none → ∀ x : Exponent, ¬x.text <+: rest

/-- Another numeral at the start of the same text has the same sign, or it has no characters. -/
theorem Ends.compare_sign (h : n.Ends rest) (heq : m.text ++ tail = n.text ++ rest) :
    m.sign = n.sign ∨ m.text.length < n.text.length := by
  have hhead := m.head_ne_sign (powerText m.exponent) fun hnone => by rw [hnone]; rfl
  have habsent := h.sign
  rw [← heq] at habsent
  unfold text at heq habsent ⊢
  cases hm : m.sign <;> cases hn : n.sign <;> rw [hm, hn] at heq <;> rw [hm, hn] at habsent
  case absent.absent | plus.plus | minus.minus => exact .inl rfl
  case absent.plus | absent.minus =>
    refine .inr ?_
    cases hbody : m.mantissa ++ powerText m.exponent with
    | nil => simp [Sign.text]
    | cons c more =>
        rw [hbody] at hhead heq
        obtain ⟨hplus, hminus⟩ := hhead c rfl
        simp only [Sign.text, List.nil_append, List.cons_append, List.cons.injEq] at heq
        first | exact absurd heq.1 hplus | exact absurd heq.1 hminus
  case plus.absent => exact absurd rfl (habsent rfl '+' rfl).1
  case minus.absent => exact absurd rfl (habsent rfl '-' rfl).2
  case plus.minus | minus.plus =>
    simp only [Sign.text, List.cons_append, List.cons.injEq] at heq
    exact absurd heq.1 (by decide)

/-- Where digits follow, no exponent stands in between. -/
theorem exponent_eq_none_of_digit {x : Option Exponent} (h : ∃ c ∈ (powerText x ++ tail).head?, c.isDigit = true) :
    x = none := by
  obtain ⟨c, hc, hdigit⟩ := h
  cases x with
  | none => rfl
  | some x =>
      obtain rfl : x.mark = c := Option.some.inj hc
      rw [x.mark_not_isDigit] at hdigit
      cases hdigit

/-- The points and the digits behind them, where the whole parts are the same: they are the same too, or
those of the other numeral are fewer and its last. -/
theorem Ends.compare_points (h : n.Ends rest)
    (heq : pointText m.fraction ++ (powerText m.exponent ++ tail) =
      pointText n.fraction ++ (powerText n.exponent ++ rest)) :
    m.fraction = n.fraction ∧ powerText m.exponent ++ tail = powerText n.exponent ++ rest ∨
      (pointText m.fraction).length < (pointText n.fraction).length ∧ m.exponent = none := by
  cases hn : n.fraction with
  | none =>
      cases hm : m.fraction with
      | none =>
          rw [hn, hm] at heq
          exact .inl ⟨rfl, heq⟩
      | some digits =>
          rw [hn, hm] at heq
          have hhead := congrArg List.head? heq
          cases hexponent : n.exponent with
          | none =>
              rw [hexponent] at hhead
              exact absurd rfl (h.point hn hexponent '.' hhead.symm)
          | some x =>
              rw [hexponent] at hhead
              exact absurd (Option.some.inj hhead).symm x.mark_ne_point
  | some digits =>
      cases hm : m.fraction with
      | none =>
          refine .inr ⟨Nat.zero_lt_succ _, ?_⟩
          rw [hn, hm] at heq
          have hhead := congrArg List.head? heq
          cases hexponent : m.exponent with
          | none => rfl
          | some x =>
              rw [hexponent] at hhead
              exact absurd (Option.some.inj hhead) x.mark_ne_point
      | some digits' =>
          have hdigits := isDigit_of_fraction hn
          have hdigits' := isDigit_of_fraction hm
          rw [hn, hm] at heq
          simp only [pointText, List.cons_append, List.cons.injEq, true_and] at heq
          rcases compare_digits hdigits hdigits' (noDigit_powerText _ h.digit) heq with
            ⟨rfl, hbehind⟩ | ⟨hfewer, hmore⟩
          · exact .inl ⟨rfl, hbehind⟩
          · exact .inr ⟨Nat.succ_lt_succ hfewer, exponent_eq_none_of_digit hmore⟩

/-- **A numeral that cannot be read any further is the longest one.** -/
theorem Ends.longest (h : n.Ends rest) (heq : m.text ++ tail = n.text ++ rest) :
    m = n ∨ m.text.length < n.text.length := by
  have hlength : ∀ k : Numeral, k.text.length = k.sign.text.length + (k.whole.length +
      ((pointText k.fraction).length + (powerText k.exponent).length)) := by
    intro k
    simp only [text, mantissa, List.length_append]
    omega
  rcases h.compare_sign heq with hsign | hshorter
  case inr => exact .inr hshorter
  rw [hlength m, hlength n, hsign]
  simp only [text, mantissa, hsign, List.append_assoc] at heq
  rcases compare_digits n.isDigit_whole m.isDigit_whole (noDigit_pointText _ (noDigit_powerText _ h.digit))
    (List.append_cancel_left heq) with ⟨hwhole, heq⟩ | ⟨hfewer, hmore⟩
  case inr =>
    -- The other numeral ends with its whole part, as more digits follow.
    have hfraction : m.fraction = none := by
      obtain ⟨c, hc, hdigit⟩ := hmore
      cases hfraction : m.fraction with
      | none => rfl
      | some digits =>
          rw [hfraction] at hc
          obtain rfl : '.' = c := Option.some.inj hc
          cases hdigit
    rw [hfraction] at hmore
    rw [hfraction, exponent_eq_none_of_digit hmore]
    simp only [pointText, powerText, List.length_nil]
    omega
  rw [hwhole]
  rcases h.compare_points heq with ⟨hfraction, heq⟩ | ⟨hfewer, hnone⟩
  case inr =>
    rw [hnone]
    simp only [powerText, List.length_nil]
    omega
  rw [hfraction]
  have hdigits : m.digits = n.digits := by rw [digits, digits, hwhole, hfraction]
  by_cases hnone : n.digits = []
  · refine .inl (Numeral.ext hsign hwhole hfraction ?_)
    rw [exponent_eq_none hnone, exponent_eq_none (hdigits.trans hnone)]
  · rcases compare_exponents h.digit (h.exponent hnone) heq with hexponent | hshorter
    · exact .inl (Numeral.ext hsign hwhole hfraction hexponent)
    · exact .inr (by omega)

/-- The numeral that cannot be read any further is the longest one, and no other is. -/
theorem Ends.isLongest_iff (h : n.Ends rest) : m.IsLongest (n.text ++ rest) ↔ m = n := by
  constructor
  · rintro ⟨⟨tail, heq⟩, hall⟩
    refine (h.longest heq).resolve_right fun hshorter => ?_
    have hle := hall n (List.prefix_append _ _)
    omega
  · rintro rfl
    refine ⟨List.prefix_append _ _, fun k hk => ?_⟩
    obtain ⟨tail, heq⟩ := hk
    rcases h.longest heq with rfl | hshorter
    · exact Nat.le_refl _
    · exact Nat.le_of_lt hshorter

end Numeral

section Reading

/-- The sign that a text starts with. -/
theorem exists_sign (source : List Char) : ∃ sign rest, source = Sign.text sign ++ rest ∧
    (sign = .absent → ∀ c ∈ rest.head?, c ≠ '+' ∧ c ≠ '-') := by
  cases source with
  | nil => exact ⟨.absent, [], rfl, nofun⟩
  | cons c rest =>
      by_cases hplus : c = '+'
      · exact ⟨.plus, rest, by rw [hplus]; rfl, nofun⟩
      · by_cases hminus : c = '-'
        · exact ⟨.minus, rest, by rw [hminus]; rfl, nofun⟩
        · refine ⟨.absent, c :: rest, rfl, fun _ d hd => ?_⟩
          obtain rfl : c = d := Option.some.inj hd
          exact ⟨hplus, hminus⟩

/-- The digits that a text starts with. -/
theorem exists_digits (source : List Char) :
    ∃ digits rest, source = digits ++ rest ∧ (∀ c ∈ digits, c.isDigit = true) ∧ NoDigit rest :=
  ⟨source.takeWhile Char.isDigit, source.dropWhile Char.isDigit, List.takeWhile_append_dropWhile.symm,
    fun _ => List.mem_takeWhile_imp, noDigit_dropWhile source⟩

/-- The point and the digits behind it that a text starts with. -/
theorem exists_fraction {source : List Char} (h : NoDigit source) :
    ∃ fraction rest, source = pointText fraction ++ rest ∧ (∀ c ∈ fraction.getD [], c.isDigit = true) ∧
      NoDigit rest ∧ (fraction = none → ∀ c ∈ rest.head?, c ≠ '.') := by
  cases source with
  | nil => exact ⟨none, [], rfl, nofun, h, nofun⟩
  | cons c rest =>
      by_cases hc : c = '.'
      · obtain ⟨digits, rest, rfl, hdigits, hrest⟩ := exists_digits rest
        exact ⟨some digits, rest, by rw [hc]; rfl, hdigits, hrest, nofun⟩
      · refine ⟨none, c :: rest, rfl, nofun, h, fun _ d hd => ?_⟩
        obtain rfl : c = d := Option.some.inj hd
        exact hc

/-- The whole exponent that a text starts with, if it starts with one. -/
theorem exists_exponent {source : List Char} {x : Exponent} (h : x.text <+: source) :
    ∃ (y : Exponent) (rest : List Char), source = y.text ++ rest ∧ NoDigit rest := by
  obtain ⟨more, rfl⟩ := h
  obtain ⟨digits, rest, rfl, hdigits, hrest⟩ := exists_digits more
  refine ⟨⟨x.mark, x.sign, x.digits ++ digits, x.mark_eq, ?_, ?_⟩, rest, ?_, hrest⟩
  · exact fun hnil => x.digits_ne (List.append_eq_nil_iff.mp hnil).1
  · intro c hc
    rcases List.mem_append.mp hc with hc | hc
    · exact x.isDigit c hc
    · exact hdigits c hc
  · simp only [Exponent.text, List.cons_append, List.append_assoc]

/-- **Every text starts with a numeral that cannot be read any further.** -/
theorem exists_ends (source : List Char) :
    ∃ (n : Numeral) (rest : List Char), source = n.text ++ rest ∧ n.Ends rest := by
  obtain ⟨sign, unsigned, rfl, hsign⟩ := exists_sign source
  obtain ⟨whole, pointed, rfl, hwhole, hpointed⟩ := exists_digits unsigned
  obtain ⟨fraction, behind, rfl, hfraction, hbehind, hpoint⟩ := exists_fraction hpointed
  by_cases hexponent : whole ++ fraction.getD [] ≠ [] ∧ ∃ x : Exponent, x.text <+: behind
  · obtain ⟨hdigits, x, hx⟩ := hexponent
    obtain ⟨y, rest, rfl, hrest⟩ := exists_exponent hx
    let n : Numeral := ⟨sign, whole, fraction, some y, hwhole, hfraction, fun _ => hdigits⟩
    have htext : sign.text ++ (whole ++ (pointText fraction ++ (y.text ++ rest))) = n.text ++ rest := by
      simp [n, Numeral.text, Numeral.mantissa, powerText]
    refine ⟨n, rest, htext, ⟨fun habsent => ?_, hrest, nofun, nofun⟩⟩
    rw [← htext, show sign = .absent from habsent]
    exact hsign habsent
  · let n : Numeral := ⟨sign, whole, fraction, none, hwhole, hfraction, nofun⟩
    have htext : sign.text ++ (whole ++ (pointText fraction ++ behind)) = n.text ++ behind := by
      simp [n, Numeral.text, Numeral.mantissa, powerText]
    refine ⟨n, behind, htext, ⟨fun habsent => ?_, hbehind, fun hnone _ => hpoint hnone, ?_⟩⟩
    · rw [← htext, show sign = .absent from habsent]
      exact hsign habsent
    · exact fun hdigits _ x hx => hexponent ⟨hdigits, x, hx⟩

end Reading

/-- The mark of an exponent as it is read: a `D` counts as an `E`. -/
def asE (c : Char) : Char := if c == 'D' then 'E' else c

theorem map_asE_of_isDigit {digits : List Char} (h : ∀ c ∈ digits, c.isDigit = true) : digits.map asE = digits := by
  refine (List.map_congr_left fun c hc => ?_).trans (List.map_id digits)
  have hne : c ≠ 'D' := by
    rintro rfl
    cases h 'D' hc
  simp [asE, hne]

theorem splitSign_text (sign : Sign) {body : List Char} (h : ∀ c ∈ body.head?, c ≠ '+' ∧ c ≠ '-') :
    splitSign (sign.text ++ body) = (sign == .minus, body) := by
  cases sign with
  | plus => rfl
  | minus => rfl
  | absent =>
      cases body with
      | nil => rfl
      | cons c rest =>
          obtain ⟨hplus, hminus⟩ := h c rfl
          change splitSign (c :: rest) = _
          unfold splitSign
          split
          · rename_i heq
            exact absurd (List.cons.inj heq).1 hminus
          · rename_i heq
            exact absurd (List.cons.inj heq).1 hplus
          · rfl

/-- Splits off a point and the digits behind it, without the point. -/
def splitPoint : List Char → List Char × List Char
  | '.' :: more => (more.takeWhile Char.isDigit, more.dropWhile Char.isDigit)
  | other => ([], other)

/-- Reading of a whole text by its parts. -/
theorem ofText?_eq (text : List Char) :
    Written.ofText? text =
      let unsigned := (splitSign text).2
      let whole := unsigned.takeWhile Char.isDigit
      let behind := splitPoint (unsigned.dropWhile Char.isDigit)
      if whole.isEmpty && behind.1.isEmpty then none
      else
        (exponentPart? behind.2).map fun exponent =>
          ⟨(splitSign text).1, ⟨digitsValue (whole ++ behind.1), exponent - behind.1.length⟩⟩ := rfl

namespace Exponent

/-- The text of an exponent once its mark is read as an `E`. -/
theorem map_asE_text (x : Exponent) : x.text.map asE = 'E' :: (x.sign.text ++ x.digits) := by
  have hmark : asE x.mark = 'E' := by rcases x.mark_eq with h | h <;> (rw [h]; rfl)
  have hsign : x.sign.text.map asE = x.sign.text := by cases x.sign <;> rfl
  rw [text, List.map_cons, List.map_append, hmark, hsign, map_asE_of_isDigit x.isDigit]

theorem head_digits (x : Exponent) (tail : List Char) : ∀ c ∈ (x.digits ++ tail).head?, c ≠ '+' ∧ c ≠ '-' := by
  intro c hc
  obtain ⟨d, more, hdigits⟩ := List.exists_cons_of_ne_nil x.digits_ne
  rw [hdigits] at hc
  obtain rfl : d = c := Option.some.inj hc
  exact ne_sign_of_isDigit (x.isDigit d (hdigits ▸ List.mem_cons_self))

theorem exponentPart?_text (x : Exponent) : exponentPart? (x.text.map asE) = some x.value := by
  have hhead : ∀ c ∈ x.digits.head?, c ≠ '+' ∧ c ≠ '-' := by
    have happend := x.head_digits []
    rwa [List.append_nil] at happend
  have hdigits : x.digits.all Char.isDigit = true := List.all_eq_true.mpr x.isDigit
  have hne : x.digits.isEmpty = false := List.isEmpty_eq_false_iff.mpr x.digits_ne
  rw [map_asE_text, exponentPart?, splitSign_text x.sign hhead]
  simp [hdigits, hne, value]

end Exponent

namespace Numeral

variable {n : Numeral} {rest tail : List Char}

theorem takeWhile_mantissa (n : Numeral) (h : NoDigit tail) :
    (n.mantissa ++ tail).takeWhile Char.isDigit = n.whole ∧
      (n.mantissa ++ tail).dropWhile Char.isDigit = pointText n.fraction ++ tail := by
  rw [mantissa, List.append_assoc]
  exact Token.takeWhile_append_digits n.isDigit_whole (noDigit_pointText _ h)

/-- The digits behind the point, in front of what does not go on with them. -/
theorem splitPoint_pointText (n : Numeral) (h : NoDigit tail)
    (hpoint : n.fraction = none → ∀ c ∈ tail.head?, c ≠ '.') :
    splitPoint (pointText n.fraction ++ tail) = (n.fraction.getD [], tail) := by
  cases hfraction : n.fraction with
  | none =>
      change splitPoint tail = _
      unfold splitPoint
      split
      · exact absurd rfl (hpoint hfraction '.' rfl)
      · rfl
  | some digits =>
      obtain ⟨htake, hdrop⟩ := Token.takeWhile_append_digits (isDigit_of_fraction hfraction) h
      change ((digits ++ tail).takeWhile Char.isDigit, (digits ++ tail).dropWhile Char.isDigit) = _
      rw [htake, hdrop]
      rfl

/-- The mantissa of a numeral in front of what does not go on with it. -/
theorem spanMantissa_mantissa (n : Numeral) (h : NoDigit tail)
    (hpoint : n.fraction = none → ∀ c ∈ tail.head?, c ≠ '.') :
    spanMantissa (n.mantissa ++ tail) = (n.mantissa, tail) := by
  obtain ⟨htake, hdrop⟩ := n.takeWhile_mantissa h
  rw [spanMantissa, htake, hdrop]
  cases hfraction : n.fraction with
  | none =>
      rw [mantissa, hfraction]
      change (match tail with | '.' :: rest => _ | rest => _) = _
      split
      · exact absurd rfl (hpoint hfraction '.' rfl)
      · rw [pointText, List.append_nil]
  | some digits =>
      obtain ⟨htake', hdrop'⟩ := Token.takeWhile_append_digits (isDigit_of_fraction hfraction) h
      rw [mantissa, hfraction]
      change (n.whole ++ '.' :: (digits ++ tail).takeWhile Char.isDigit, (digits ++ tail).dropWhile Char.isDigit) = _
      rw [htake', hdrop']
      rfl

/-- **A numeral read as a whole is the number that it denotes**, if it has a digit. -/
theorem ofText?_text (n : Numeral) :
    Written.ofText? (n.sign.text ++ (n.mantissa ++ (powerText n.exponent).map asE)) =
      if n.digits = [] then none else some n.written := by
  have hhead : ∀ c ∈ ((powerText n.exponent).map asE).head?, c = 'E' := by
    intro c hc
    cases hexponent : n.exponent with
    | none =>
        rw [hexponent] at hc
        cases hc
    | some x =>
        rw [hexponent, powerText, x.map_asE_text] at hc
        exact (Option.some.inj hc).symm
  have hvalue : exponentPart? ((powerText n.exponent).map asE) =
      some ((n.exponent.map Exponent.value).getD 0) := by
    cases n.exponent with
    | none => rfl
    | some x => exact x.exponentPart?_text
  have hdigit : NoDigit ((powerText n.exponent).map asE) := fun c hc => by
    rw [hhead c hc]
    rfl
  have hpoint : ∀ c ∈ ((powerText n.exponent).map asE).head?, c ≠ '.' := fun c hc => by
    rw [hhead c hc]
    decide
  have hsign := splitSign_text n.sign
    (n.head_ne_sign ((powerText n.exponent).map asE) fun hnone => by rw [hnone]; rfl)
  obtain ⟨htake, hdrop⟩ := n.takeWhile_mantissa hdigit
  rw [ofText?_eq, hsign]
  dsimp only
  rw [htake, hdrop, n.splitPoint_pointText hdigit fun _ => hpoint]
  dsimp only
  rw [hvalue]
  by_cases hnone : n.digits = []
  · obtain ⟨hwhole, hfraction⟩ := List.append_eq_nil_iff.mp hnone
    rw [hwhole, hfraction, if_pos hnone]
    rfl
  · have hne : (n.whole.isEmpty && (n.fraction.getD []).isEmpty) = false := by
      rw [← Bool.not_eq_true, Bool.and_eq_true, List.isEmpty_iff, List.isEmpty_iff]
      exact fun hboth => hnone (List.append_eq_nil_iff.mpr hboth)
    rw [if_neg hnone, hne]
    rfl

/-- The value of a numeral: the number that it denotes, as a double or as a single. Without a digit it is
the integer zero. -/
def value (n : Numeral) (double : Bool) : Value :=
  if n.digits = [] then .int 0
  else if double then .double n.written.toDouble
  else .single (singleOfDouble n.written.toDouble)

/-- Whether the mantissa of a numeral is followed by a `D` in the text that starts with it. -/
def IsDoubleIn (n : Numeral) (source : List Char) : Prop := n.sign.text ++ (n.mantissa ++ ['D']) <+: source

instance (n : Numeral) (source : List Char) : Decidable (n.IsDoubleIn source) :=
  inferInstanceAs (Decidable (n.sign.text ++ (n.mantissa ++ ['D']) <+: source))

end Numeral

end Number

namespace Value

open Number

variable {n : Numeral} {rest : List Char}

/-- The characters that a text is read by as a number: all but the spaces, letters in capitals. -/
def compact (source : String) : List Char := (source.toList.filter (· != ' ')).map Char.toUpper

/-- An exponent in front of what does not go on with it, and none where no digit follows. -/
theorem exponentAhead_eq {mark : Char} {sign : Sign} {digits : List Char}
    (hsign : sign = .absent → ∀ c ∈ (digits ++ rest).head?, c ≠ '+' ∧ c ≠ '-')
    (hdigits : ∀ c ∈ digits, c.isDigit = true) (hrest : NoDigit rest) :
    exponentAhead (mark :: (sign.text ++ (digits ++ rest))) =
      if digits = [] then [] else mark :: (sign.text ++ digits) := by
  have hwith : ∀ start, exponentAhead.withDigits start (digits ++ rest) =
      if digits = [] then [] else start ++ digits := by
    intro start
    rw [exponentAhead.withDigits, (Token.takeWhile_append_digits hdigits hrest).1]
    cases digits <;> rfl
  cases sign with
  | plus => exact hwith [mark, '+']
  | minus => exact hwith [mark, '-']
  | absent =>
      have hstart : exponentAhead (mark :: (digits ++ rest)) =
          exponentAhead.withDigits [mark] (digits ++ rest) := by
        unfold exponentAhead
        split
        · rename_i heq
          exact absurd rfl (hsign rfl '+' (by rw [(List.cons.inj heq).2]; rfl)).1
        · rename_i heq
          exact absurd rfl (hsign rfl '-' (by rw [(List.cons.inj heq).2]; rfl)).2
        · rename_i heq
          obtain ⟨rfl, rfl⟩ := List.cons.inj heq
          rfl
        · rename_i heq
          cases heq
      exact hstart.trans (hwith [mark])

/-- What is taken for the exponent behind the mantissa of the longest numeral is its exponent. -/
theorem exponentAhead_of_ends (h : n.Ends rest) (hdigits : n.digits ≠ [])
    (hmark : ∀ c ∈ (powerText n.exponent ++ rest).head?, c = 'E' ∨ c = 'D') :
    exponentAhead (powerText n.exponent ++ rest) = powerText n.exponent := by
  cases hexponent : n.exponent with
  | some x =>
      have hread : exponentAhead (x.mark :: (x.sign.text ++ (x.digits ++ rest))) = _ :=
        exponentAhead_eq (fun _ => x.head_digits rest) x.isDigit h.digit
      rw [if_neg x.digits_ne] at hread
      simpa only [powerText, Exponent.text, List.cons_append, List.append_assoc] using hread
  | none =>
      rw [hexponent] at hmark
      change exponentAhead rest = []
      cases rest with
      | nil => rfl
      | cons mark more =>
          obtain ⟨sign, unsigned, rfl, hsign⟩ := exists_sign more
          obtain ⟨digits, behind, rfl, hall, hbehind⟩ := exists_digits unsigned
          rw [exponentAhead_eq hsign hall hbehind]
          refine if_pos ?_
          by_contra hne
          let x : Exponent := ⟨mark, sign, digits, hmark mark rfl, hne, hall⟩
          refine h.exponent hdigits hexponent x ⟨behind, ?_⟩
          simp [x, Exponent.text]

theorem any_mantissa (n : Numeral) : n.mantissa.any Char.isDigit = !n.digits.isEmpty := by
  have hall : ∀ digits : List Char, (∀ c ∈ digits, c.isDigit = true) →
      digits.any Char.isDigit = !digits.isEmpty := by
    intro digits hdigits
    cases digits with
    | nil => rfl
    | cons c more => simp [hdigits c List.mem_cons_self]
  have hpoint : (pointText n.fraction).any Char.isDigit = (n.fraction.getD []).any Char.isDigit := by
    cases n.fraction with
    | none => rfl
    | some digits => simp [pointText]
  rw [Numeral.mantissa, List.any_append, hpoint, ← List.any_append]
  refine hall _ fun c hc => ?_
  rcases List.mem_append.mp hc with hc | hc
  · exact n.isDigit_whole c hc
  · exact n.isDigit_fraction c hc

/-- What is read of a text whose sign and mantissa are known. -/
theorem ofNumericText_eq {source : String} {sign mantissa behind : List Char}
    (hsign : ((compact source).take 1).filter (fun c => c == '+' || c == '-') = sign)
    (hspan : spanMantissa ((compact source).drop sign.length) = (mantissa, behind)) :
    ofNumericText source =
      let marked := mantissa.any Char.isDigit && (behind.head? == some 'E' || behind.head? == some 'D')
      let exponent := if marked then (exponentAhead behind).map asE else []
      match Written.ofText? (sign ++ mantissa ++ exponent) with
      | none => int 0
      | some written =>
          if marked && behind.head? == some 'D' then double written.toDouble
          else single (singleOfDouble written.toDouble) := by
  unfold compact at hsign hspan
  unfold ofNumericText
  dsimp only
  rw [hsign, hspan]
  rfl

theorem take_sign (h : n.Ends rest) :
    ((n.text ++ rest).take 1).filter (fun c => c == '+' || c == '-') = n.sign.text := by
  have habsent := h.sign
  rw [Numeral.text] at habsent ⊢
  cases hsign : n.sign with
  | plus => rfl
  | minus => rfl
  | absent =>
      have habsent := habsent hsign
      rw [hsign] at habsent
      cases hbody : Sign.absent.text ++ (n.mantissa ++ powerText n.exponent) ++ rest with
      | nil => rfl
      | cons c more =>
          rw [hbody] at habsent
          obtain ⟨hplus, hminus⟩ := habsent c rfl
          simp [hplus, hminus, Sign.text]

theorem isDoubleIn_iff (n : Numeral) (rest : List Char) :
    n.IsDoubleIn (n.text ++ rest) ↔ (powerText n.exponent ++ rest).head? = some 'D' := by
  rw [Numeral.IsDoubleIn, Numeral.text, List.append_assoc, List.append_assoc, List.prefix_append_right_inj,
    List.prefix_append_right_inj]
  cases powerText n.exponent ++ rest with
  | nil => simp
  | cons c more => simp [List.cons_prefix_cons, eq_comm]

/-- What is taken for the exponent behind the mantissa of the longest numeral is its exponent, whether or
not the mantissa has a digit and a mark behind it. -/
theorem taken_exponent (h : n.Ends rest) :
    (if n.mantissa.any Char.isDigit && ((powerText n.exponent ++ rest).head? == some 'E' ||
          (powerText n.exponent ++ rest).head? == some 'D') then
        (exponentAhead (powerText n.exponent ++ rest)).map asE
      else []) = (powerText n.exponent).map asE := by
  split
  · rename_i hmarked
    rw [any_mantissa, Bool.and_eq_true, Bool.or_eq_true, beq_iff_eq, beq_iff_eq] at hmarked
    obtain ⟨hdigits, hmark⟩ := hmarked
    refine congrArg (List.map asE) (exponentAhead_of_ends h (by simpa using hdigits) fun c hc => ?_)
    rw [Option.mem_def.mp hc] at hmark
    simpa using hmark
  · rename_i hplain
    cases hexponent : n.exponent with
    | none => rfl
    | some x =>
        refine absurd ?_ hplain
        have hdigits : n.digits ≠ [] := n.digits_ne (by rw [hexponent]; nofun)
        have hhead : (powerText (some x) ++ rest).head? = some x.mark := rfl
        rw [any_mantissa, hexponent, hhead]
        simpa [hdigits] using x.mark_eq

/-- **What is read is the longest numeral.** -/
theorem ofNumericText_of_ends {source : String} (htext : compact source = n.text ++ rest) (h : n.Ends rest) :
    ofNumericText source = n.value (n.IsDoubleIn (compact source)) := by
  have hdrop : (n.text ++ rest).drop n.sign.text.length = n.mantissa ++ (powerText n.exponent ++ rest) := by
    rw [Numeral.text, List.append_assoc, List.drop_left, List.append_assoc]
  have hpoint : n.fraction = none → ∀ c ∈ (powerText n.exponent ++ rest).head?, c ≠ '.' := by
    intro hfraction c hc
    cases hexponent : n.exponent with
    | none =>
        rw [hexponent] at hc
        exact h.point hfraction hexponent c hc
    | some x =>
        rw [hexponent] at hc
        obtain rfl : x.mark = c := Option.some.inj hc
        exact x.mark_ne_point
  have hsign := take_sign h
  have hspan := n.spanMantissa_mantissa (noDigit_powerText n.exponent h.digit) hpoint
  rw [← hdrop] at hspan
  rw [← htext] at hsign hspan
  rw [ofNumericText_eq hsign hspan, htext]
  dsimp only
  rw [taken_exponent h, List.append_assoc, n.ofText?_text, any_mantissa, Numeral.value]
  by_cases hdigits : n.digits = []
  · rw [if_pos hdigits, if_pos hdigits]
  · have hmarked : (!n.digits.isEmpty && ((powerText n.exponent ++ rest).head? == some 'E' ||
          (powerText n.exponent ++ rest).head? == some 'D') &&
        (powerText n.exponent ++ rest).head? == some 'D') = decide (n.IsDoubleIn (n.text ++ rest)) := by
      rw [Bool.eq_iff_iff, decide_eq_true_iff, isDoubleIn_iff]
      generalize (powerText n.exponent ++ rest).head? = next
      simp +contextual [hdigits]
    rw [if_neg hdigits, if_neg hdigits]
    dsimp only
    rw [hmarked]

/-- **VAL reads the longest numeral.** Every text, without its spaces and in capitals, starts with exactly
one longest numeral. VAL gives the number that it denotes, as a double if a `D` stands right behind its
mantissa and else as a single, and the integer zero if it has no digit. What else follows the numeral has
no influence. -/
theorem reads_longest_numeral (source : String) :
    ∃ n : Numeral, n.IsLongest (compact source) ∧ (∀ m : Numeral, m.IsLongest (compact source) → m = n) ∧
      ofNumericText source = n.value (n.IsDoubleIn (compact source)) ∧
      Builtin.val.apply [.text source] = .ok (ofNumericText source) := by
  obtain ⟨n, rest, htext, hends⟩ := exists_ends (compact source)
  refine ⟨n, ?_, fun m hm => ?_, ofNumericText_of_ends htext hends, rfl⟩
  · rw [htext]
    exact hends.isLongest_iff.mpr rfl
  · rw [htext] at hm
    exact hends.isLongest_iff.mp hm

end Value

end LineBasic
