import LineBasic.Proofs.ReadCommand

/-! The tokens that statements are listed as. A statement that reads back is scanned to its tokens,
given that what follows leaves its last command alone: nothing but the end of the line may follow a
remark, and ELSE may not follow DATA. -/

namespace LineBasic

open Token

namespace Statement

/-- The text of a branch of IF. -/
def branchListing (list : List Statement) : String :=
  match loneGoto? list with
  | some line => toString line
  | none => listingAll list

theorem listing_choice (condition : Expr) (thenList elseList : List Statement) :
    (choice condition thenList elseList).listing =
      "IF " ++ condition.listing ++ " THEN " ++ branchListing thenList ++
        if elseList.isEmpty then "" else " ELSE " ++ branchListing elseList := by
  rw [listing]
  rfl

theorem listingAll_cons (s : Statement) {rest : List Statement} (h : rest ≠ []) :
    listingAll (s :: rest) = s.listing ++ " : " ++ listingAll rest := by
  cases rest with
  | nil => exact absurd rfl h
  | cons next more =>
      rw [listingAll]
      simp

mutual

/-- The tokens of a statement's listing. -/
def tokens : Statement → List Token
  | command c => c.tokens
  | choice condition thenList elseList =>
      ofKeyword .IF :: (condition.tokens ++ ofKeyword .THEN ::
        ((match loneGoto? thenList with
          | some line => [lineToken line]
          | none => tokensAll thenList) ++
          if elseList.isEmpty then []
          else
            ofKeyword .ELSE ::
              match loneGoto? elseList with
              | some line => [lineToken line]
              | none => tokensAll elseList))

def tokensAll : List Statement → List Token
  | [] => []
  | [s] => s.tokens
  | s :: rest => s.tokens ++ ofSymbol ':' :: tokensAll rest

end

/-- The tokens of a branch of IF. -/
def branchTokens (list : List Statement) : List Token :=
  match loneGoto? list with
  | some line => [lineToken line]
  | none => tokensAll list

theorem tokens_choice (condition : Expr) (thenList elseList : List Statement) :
    (choice condition thenList elseList).tokens =
      ofKeyword .IF :: (condition.tokens ++ ofKeyword .THEN :: (branchTokens thenList ++
        if elseList.isEmpty then [] else ofKeyword .ELSE :: branchTokens elseList)) := by
  rw [tokens]
  rfl

theorem tokensAll_cons (s : Statement) {rest : List Statement} (h : rest ≠ []) :
    tokensAll (s :: rest) = s.tokens ++ ofSymbol ':' :: tokensAll rest := by
  cases rest with
  | nil => exact absurd rfl h
  | cons next more =>
      rw [tokensAll]
      simp

mutual

/-- The command that a statement's text ends with. -/
def last : Statement → Command
  | command c => c
  | choice _ thenList elseList => if elseList.isEmpty then lastAll thenList else lastAll elseList

def lastAll : List Statement → Command
  | [] => .beep
  | [s] => s.last
  | _ :: rest => lastAll rest

end

/-- Whether another statement may follow on the line. What follows a remark is part of it, and what
follows IF is part of a branch unless that is a line number. -/
def isFollowable : Statement → Bool
  | command (.remark _) => false
  | command _ => true
  | choice _ thenList elseList =>
      (loneGoto? (if elseList.isEmpty then thenList else elseList)).isSome

mutual

/-- Whether an ELSE after the statement is left to an IF that the statement is part of. -/
def isClosed : Statement → Bool
  | command (.data _) => false
  | command _ => true
  | choice _ _ elseList => !elseList.isEmpty && areClosed elseList

def areClosed : List Statement → Bool
  | [] => true
  | [s] => s.isClosed
  | _ :: rest => areClosed rest

end

mutual

/-- Whether a statement reads back from its listing: all its calls have arguments, none of its
commands is listed as another one, and no ELSE is taken by a statement before it. -/
def isFaithful : Statement → Bool
  | command c => c.isFaithful
  | choice condition thenList elseList =>
      condition.isFaithful && areFaithful thenList && areFaithful elseList &&
        (elseList.isEmpty || areClosed thenList)

def areFaithful : List Statement → Bool
  | [] => true
  | s :: rest => s.isFaithful && areFaithful rest

end

mutual

/-- What a statement read from a text is like. -/
def Legible : Statement → Prop
  | command c => c.Legible
  | choice condition thenList elseList =>
      condition.Legible ∧ thenList ≠ [] ∧ LegibleAll thenList ∧ LegibleAll elseList ∧
        (elseList ≠ [] → ∀ text, lastAll thenList ≠ .remark text)

def LegibleAll : List Statement → Prop
  | [] => True
  | s :: rest => s.Legible ∧ (rest ≠ [] → s.isFollowable = true) ∧ LegibleAll rest

end

mutual

/-- The statement with the semicolons that its listing has. -/
def separated : Statement → Statement
  | command c => command c.separated
  | choice condition thenList elseList =>
      choice condition (separatedAll thenList) (separatedAll elseList)

def separatedAll : List Statement → List Statement
  | [] => []
  | s :: rest => s.separated :: separatedAll rest

end

section Last

variable {s : Statement} {list : List Statement}

theorem loneGoto?_eq_some {line : Nat} (h : loneGoto? list = some line) :
    list = [command (.goto line)] := by
  unfold loneGoto? at h
  split at h
  · rw [Option.some.inj h]
  · cases h

theorem lastAll_of_loneGoto? {line : Nat} (h : loneGoto? list = some line) :
    lastAll list = .goto line := by
  rw [loneGoto?_eq_some h, lastAll, last]

theorem lastAll_cons (s : Statement) {rest : List Statement} (h : rest ≠ []) :
    lastAll (s :: rest) = lastAll rest := by
  cases rest with
  | nil => exact absurd rfl h
  | cons next more =>
      rw [lastAll]
      simp

theorem areClosed_cons (s : Statement) {rest : List Statement} (h : rest ≠ []) :
    areClosed (s :: rest) = areClosed rest := by
  cases rest with
  | nil => exact absurd rfl h
  | cons next more =>
      rw [areClosed]
      simp

theorem last_ne_remark_of_isFollowable (h : s.isFollowable = true) (text : String) :
    s.last ≠ .remark text := by
  cases s with
  | command c =>
      rintro rfl
      cases h
  | choice condition thenList elseList =>
      rw [isFollowable, Option.isSome_iff_exists] at h
      obtain ⟨line, hline⟩ := h
      rw [last]
      split at hline
      · rename_i hempty
        rw [if_pos hempty, lastAll_of_loneGoto? hline]
        simp
      · rename_i hempty
        rw [if_neg hempty, lastAll_of_loneGoto? hline]
        simp

mutual

theorem last_ne_data_of_isClosed : ∀ {s : Statement}, s.isClosed = true → ∀ items, s.last ≠ .data items
  | command c, h, items => by
      rw [last]
      rintro rfl
      cases h
  | choice condition thenList elseList, h, items => by
      rw [isClosed, Bool.and_eq_true, Bool.not_eq_true'] at h
      rw [last, h.1, if_neg Bool.false_ne_true]
      exact lastAll_ne_data_of_areClosed h.2 items

theorem lastAll_ne_data_of_areClosed : ∀ {list : List Statement}, areClosed list = true →
    ∀ items, lastAll list ≠ .data items
  | [], _, items => by
      rw [lastAll]
      simp
  | [s], h, items => by
      rw [areClosed] at h
      rw [lastAll]
      exact last_ne_data_of_isClosed h items
  | s :: next :: rest, h, items => by
      rw [areClosed_cons s (by simp)] at h
      rw [lastAll_cons s (by simp)]
      exact lastAll_ne_data_of_areClosed h items

end

/-- ELSE may follow a branch that leaves it alone. -/
theorem lastAll_precedes (hremark : ∀ text, lastAll list ≠ .remark text) (hclosed : areClosed list = true)
    {tail : List Char} (htail : Breaks tail) : (lastAll list).Precedes tail := by
  refine Command.precedes_of_breaks ?_ htail
  cases hlast : lastAll list with
  | remark text => exact absurd hlast (hremark text)
  | data items => exact absurd hlast (lastAll_ne_data_of_areClosed hclosed items)
  | _ => rfl

end Last

section Scan

variable {tail : List Char}

/-- A reserved word between blanks. -/
theorem lexFragment_keyword (keyword : Keyword) (hmode : Piece.modeAfter keyword = .statement)
    (text : List Char) :
    lexFragment (keyword.spelling.toList ++ ' ' :: text) false =
      ofKeyword keyword :: lexFragment text false := by
  have hspells := (spells_keyword keyword hmode).scan (' ' :: text) (breaks_cons (by decide))
  rw [hspells, lexFragment_space false (by decide)]
  rfl

/-- What follows the first branch of IF: the second branch, if there is one, and what follows that. -/
def elseText (elseList : List Statement) (tail : List Char) : List Char :=
  if elseList.isEmpty then tail
  else ' ' :: (Keyword.ELSE.spelling.toList ++ ' ' :: ((branchListing elseList).toList ++ tail))

theorem lexFragment_else (text : List Char) :
    lexFragment (' ' :: (Keyword.ELSE.spelling.toList ++ ' ' :: text)) false =
      ofKeyword .ELSE :: lexFragment text false := by
  rw [lexFragment_space false (by decide), lexFragment_keyword .ELSE rfl]

theorem lexFragment_colon (text : List Char) :
    lexFragment (' ' :: ':' :: ' ' :: text) false = ofSymbol ':' :: lexFragment text false := by
  rw [lexFragment_space false (by decide), lexFragment_lone (by decide),
    lexFragment_space false (by decide)]

/-- The condition of IF is scanned whatever its branches are. -/
theorem lexFragment_choice {condition : Expr} (h : condition.Legible)
    (thenList elseList : List Statement) (tail : List Char) :
    lexFragment ((choice condition thenList elseList).listing.toList ++ tail) false =
      ofKeyword .IF :: (condition.tokens ++ ofKeyword .THEN ::
        lexFragment ((branchListing thenList).toList ++ elseText elseList tail) false) := by
  have htext : (choice condition thenList elseList).listing.toList ++ tail =
      Keyword.IF.spelling.toList ++ ' ' :: (condition.listing.toList ++
        ' ' :: (Keyword.THEN.spelling.toList ++ ' ' ::
          ((branchListing thenList).toList ++ elseText elseList tail))) := by
    rw [listing_choice, elseText]
    cases elseList.isEmpty <;> simp [Keyword.spelling]
  rw [htext, lexFragment_keyword .IF rfl, (Expr.spells_tokens h).scan _ (breaks_cons (by decide)),
    lexFragment_space false (by decide), lexFragment_keyword .THEN rfl]

theorem listingAll_text (s : Statement) {rest : List Statement} (h : rest ≠ []) (tail : List Char) :
    (listingAll (s :: rest)).toList ++ tail =
      s.listing.toList ++ ' ' :: ':' :: ' ' :: ((listingAll rest).toList ++ tail) := by
  rw [listingAll_cons s h]
  simp

theorem lexFragment_branch {list : List Statement} (htail : (lastAll list).Precedes tail)
    (h : lexFragment ((listingAll list).toList ++ tail) false =
      tokensAll list ++ lexFragment tail false) :
    lexFragment ((branchListing list).toList ++ tail) false =
      branchTokens list ++ lexFragment tail false := by
  unfold branchListing branchTokens
  cases hlone : loneGoto? list with
  | none => exact h
  | some line =>
      rw [lastAll_of_loneGoto? hlone] at htail
      exact (spells_line line).scan tail htail

mutual

/-- **The listing of a statement that reads back is scanned to its tokens.** -/
theorem lexFragment_listing : ∀ {s : Statement}, s.Legible → s.isFaithful = true →
    ∀ {tail : List Char}, s.last.Precedes tail →
      lexFragment (s.listing.toList ++ tail) false = s.tokens ++ lexFragment tail false
  | command c, h, _, tail, htail => by
      rw [Legible] at h
      rw [last] at htail
      rw [listing, tokens]
      exact Command.lexFragment_listing h htail
  | choice condition thenList elseList, h, hfaithful, tail, htail => by
      rw [Legible] at h
      obtain ⟨hcondition, hne, hthen, helse, hremark⟩ := h
      rw [isFaithful, Bool.and_eq_true, Bool.and_eq_true, Bool.and_eq_true] at hfaithful
      obtain ⟨⟨⟨-, hthenFaithful⟩, helseFaithful⟩, hclosed⟩ := hfaithful
      rw [last] at htail
      rw [lexFragment_choice hcondition, tokens_choice, elseText]
      by_cases hnil : elseList = []
      · subst hnil
        rw [List.isEmpty_nil, if_pos rfl] at htail
        rw [List.isEmpty_nil, if_pos rfl, if_pos rfl,
          lexFragment_branch htail (lexFragment_listingAll hne hthen hthenFaithful htail)]
        simp
      · have hempty : elseList.isEmpty = false := List.isEmpty_eq_false_iff.mpr hnil
        rw [hempty, if_neg Bool.false_ne_true] at htail
        rw [hempty, Bool.false_or] at hclosed
        have hprecedes : (lastAll thenList).Precedes (' ' :: (Keyword.ELSE.spelling.toList ++
            ' ' :: ((branchListing elseList).toList ++ tail))) :=
          lastAll_precedes (hremark hnil) hclosed (breaks_cons (by decide))
        rw [hempty, if_neg Bool.false_ne_true, if_neg Bool.false_ne_true,
          lexFragment_branch hprecedes (lexFragment_listingAll hne hthen hthenFaithful hprecedes),
          lexFragment_else,
          lexFragment_branch htail (lexFragment_listingAll hnil helse helseFaithful htail)]
        simp

theorem lexFragment_listingAll : ∀ {list : List Statement}, list ≠ [] → LegibleAll list →
    areFaithful list = true → ∀ {tail : List Char}, (lastAll list).Precedes tail →
      lexFragment ((listingAll list).toList ++ tail) false = tokensAll list ++ lexFragment tail false
  | [], hne, _, _, _, _ => absurd rfl hne
  | [s], _, h, hfaithful, tail, htail => by
      rw [LegibleAll] at h
      rw [areFaithful, Bool.and_eq_true] at hfaithful
      rw [lastAll] at htail
      rw [listingAll, tokensAll]
      exact lexFragment_listing h.1 hfaithful.1 htail
  | s :: next :: rest, _, h, hfaithful, tail, htail => by
      rw [LegibleAll] at h
      rw [areFaithful, Bool.and_eq_true] at hfaithful
      rw [lastAll_cons s (by simp)] at htail
      obtain ⟨hs, hfollowable, hrest⟩ := h
      have hprecedes : s.last.Precedes (' ' :: ':' :: ' ' ::
          ((listingAll (next :: rest)).toList ++ tail)) :=
        Command.precedes_of_closes (last_ne_remark_of_isFollowable (hfollowable (by simp)))
          (.inr ⟨_, rfl⟩)
      rw [listingAll_text s (by simp), tokensAll_cons s (by simp),
        lexFragment_listing hs hfaithful.1 hprecedes, lexFragment_colon,
        lexFragment_listingAll (by simp) hrest hfaithful.2 htail, List.append_assoc, List.cons_append]

end

end Scan

end Statement

end LineBasic
