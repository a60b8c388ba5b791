import LineBasic.Token.Relational

/-! Joining in place. The places of the pairs are noted before any pair is joined, and each joining shortens the
list. The places stay right as the last pair is joined first: what stands in front of a pair, and the pair itself, has
not moved when its turn comes. So the tokens are those of one pass from left to right, however many pairs there are
and however closely they stand. -/

namespace LineBasic.Token

/-- Joins from the left: where the first two tokens form an operator, it goes on behind both of them, and otherwise
behind the first. -/
def joinPairs : List Token → List Token
  | left :: right :: rest =>
      match join? left right with
      | some joined => joined :: joinPairs rest
      | none => left :: joinPairs (right :: rest)
  | tokens => tokens

variable {left right joined : Token} {rest front back tokens : List Token} {index : Nat}

theorem sitesAmong_windowsFrom_of_none (h : join? left right = none) :
    sitesAmong (windowsFrom index (left :: right :: rest)) = sitesAmong (windowsFrom (index + 1) (right :: rest)) := by
  rw [windowsFrom, sitesAmong, h]

/-- Behind a pair the windows go on at the token that follows it. -/
theorem sitesAmong_windowsFrom_of_some (h : join? left right = some joined) :
    sitesAmong (windowsFrom index (left :: right :: rest)) =
      ⟨index, joined⟩ :: sitesAmong (windowsFrom (index + 2) rest) := by
  rw [windowsFrom, sitesAmong, h]
  cases rest <;> rfl

theorem joinPairs_of_some (h : join? left right = some joined) (rest : List Token) :
    joinPairs (left :: right :: rest) = joined :: joinPairs rest := by
  rw [joinPairs, h]

theorem joinPairs_of_none (h : join? left right = none) (rest : List Token) :
    joinPairs (left :: right :: rest) = left :: joinPairs (right :: rest) := by
  rw [joinPairs, h]

theorem joinPairs_of_short (hshort : ∀ left right rest, tokens = left :: right :: rest → False) :
    joinPairs tokens = tokens := by
  rw [joinPairs]
  exact hshort

theorem sitesAmong_windowsFrom_of_short (hshort : ∀ left right rest, tokens = left :: right :: rest → False)
    (index : Nat) : sitesAmong (windowsFrom index tokens) = [] := by
  rw [windowsFrom, sitesAmong]
  exact hshort

/-- Two tokens that stand where the site says become one. -/
theorem splice_append (front back : List Token) (left right token : Token) :
    splice ⟨front.length, token⟩ (front ++ left :: right :: back) = front ++ token :: back := by
  rw [splice, List.take_left, List.drop_append]
  simp

/-- Joining at the sites behind some tokens leaves these as they are, and joins what follows them from the left. -/
theorem spliceAll_sitesAmong (front tokens : List Token) :
    spliceAll (sitesAmong (windowsFrom front.length tokens)) (front ++ tokens) = front ++ joinPairs tokens := by
  -- The induction follows the joining from the left; `front` is all that it has behind it, still unjoined.
  induction tokens using joinPairs.induct generalizing front with
  | case1 left right rest joined hjoin ih =>
      have hrest : spliceAll (sitesAmong (windowsFrom (front.length + 2) rest)) (front ++ left :: right :: rest) =
          front ++ left :: right :: joinPairs rest := by
        simpa using ih (front ++ [left, right])
      rw [sitesAmong_windowsFrom_of_some hjoin, joinPairs_of_some hjoin, spliceAll, List.foldr_cons, ← spliceAll, hrest]
      exact splice_append front (joinPairs rest) left right joined
  | case2 left right rest hjoin ih =>
      rw [sitesAmong_windowsFrom_of_none hjoin, joinPairs_of_none hjoin]
      simpa using ih (front ++ [left])
  | case3 tokens hshort =>
      rw [sitesAmong_windowsFrom_of_short hshort, joinPairs_of_short hshort]
      rfl

theorem joinRelational_eq_joinPairs (tokens : List Token) : joinRelational tokens = joinPairs tokens :=
  spliceAll_sitesAmong [] tokens

/-- When the turn of a site comes, its two tokens and all in front of them stand where they stood in the beginning,
and what follows them is joined. -/
theorem exists_around_site (front : List Token) {before after : List Site} {site : Site}
    (h : sitesAmong (windowsFrom front.length tokens) = before ++ site :: after) :
    ∃ passed left right back, tokens = passed ++ left :: right :: back ∧
      site.index = (front ++ passed).length ∧ join? left right = some site.token ∧
      spliceAll after (front ++ tokens) = front ++ passed ++ left :: right :: joinPairs back := by
  induction tokens using joinPairs.induct generalizing front before with
  | case1 left right rest joined hjoin ih =>
      rw [sitesAmong_windowsFrom_of_some hjoin] at h
      have hfront : (front ++ [left, right]).length = front.length + 2 := List.length_append
      cases before with
      | nil =>
          obtain ⟨rfl, rfl⟩ := List.cons.inj h
          refine ⟨[], left, right, rest, rfl, by simp, hjoin, ?_⟩
          have hrest := spliceAll_sitesAmong (front ++ [left, right]) rest
          rw [hfront] at hrest
          simpa using hrest
      | cons first before =>
          obtain ⟨passed, left', right', back, rfl, hindex, hsite, hafter⟩ :=
            ih (front ++ [left, right]) (hfront ▸ (List.cons.inj h).2)
          refine ⟨left :: right :: passed, left', right', back, rfl, ?_, hsite, ?_⟩
          · simpa using hindex
          · simpa using hafter
  | case2 left right rest hjoin ih =>
      rw [sitesAmong_windowsFrom_of_none hjoin] at h
      have hfront : (front ++ [left]).length = front.length + 1 := List.length_append
      obtain ⟨passed, left', right', back, hrest, hindex, hsite, hafter⟩ := ih (front ++ [left]) (hfront ▸ h)
      refine ⟨left :: passed, left', right', back, ?_, ?_, hsite, ?_⟩
      · rw [hrest, List.cons_append]
      · simpa using hindex
      · simpa using hafter
  | case3 tokens hshort =>
      rw [sitesAmong_windowsFrom_of_short hshort] at h
      cases before <;> cases h

/-- **Joining in place is joining from the left**, for any tokens. When the turn of a site comes, the two tokens that
it was noted for stand at its index, all in front of them is as in the beginning and all behind them is joined; and
they become the token of the site. -/
theorem joinRelational_joins_from_left (tokens : List Token) :
    joinRelational tokens = joinPairs tokens ∧
    ∀ before site after, sites tokens = before ++ site :: after →
      ∃ front left right back, tokens = front ++ left :: right :: back ∧ site.index = front.length ∧
        join? left right = some site.token ∧
        spliceAll after tokens = front ++ left :: right :: joinPairs back ∧
        splice site (spliceAll after tokens) = front ++ site.token :: joinPairs back := by
  refine ⟨joinRelational_eq_joinPairs tokens, fun before site after h => ?_⟩
  obtain ⟨front, left, right, back, htokens, hindex, hjoin, hafter⟩ := exists_around_site [] h
  rw [List.nil_append, List.nil_append] at hafter
  refine ⟨front, left, right, back, htokens, hindex, hjoin, hafter, ?_⟩
  obtain ⟨index, token⟩ := site
  obtain rfl : index = front.length := hindex
  rw [hafter]
  exact splice_append front (joinPairs back) left right token

/-- Operators without a gap between them: every two neighbours form an operator, and each token but the last is
joined. -/
def runTogether : List Token :=
  [⟨.lt, "<"⟩, ⟨.eq, "="⟩, ⟨.gt, ">"⟩, ⟨.eq, "="⟩, ⟨.lt, "<"⟩, ⟨.gt, ">"⟩, ⟨.lt, "<"⟩]

theorem joinRelational_joins_from_left_runTogether :
    joinRelational runTogether = [⟨.le, "<="⟩, ⟨.ge, ">="⟩, ⟨.ne, "<>"⟩, ⟨.lt, "<"⟩] ∧
      sites runTogether = [⟨0, ⟨.le, "<="⟩⟩] ++ ⟨2, ⟨.ge, ">="⟩⟩ :: [⟨4, ⟨.ne, "<>"⟩⟩] ∧
      ∃ front left right back, runTogether = front ++ left :: right :: back ∧ 2 = front.length ∧
        join? left right = some ⟨.ge, ">="⟩ ∧
        spliceAll [⟨4, ⟨.ne, "<>"⟩⟩] runTogether = front ++ left :: right :: joinPairs back ∧
        splice ⟨2, ⟨.ge, ">="⟩⟩ (spliceAll [⟨4, ⟨.ne, "<>"⟩⟩] runTogether) =
          front ++ ⟨.ge, ">="⟩ :: joinPairs back := by
  obtain ⟨hpass, hsite⟩ := joinRelational_joins_from_left runTogether
  have hsites : sites runTogether = [⟨0, ⟨.le, "<="⟩⟩] ++ ⟨2, ⟨.ge, ">="⟩⟩ :: [⟨4, ⟨.ne, "<>"⟩⟩] := by decide
  exact ⟨hpass.trans (by decide), hsites, hsite _ _ _ hsites⟩

end LineBasic.Token
