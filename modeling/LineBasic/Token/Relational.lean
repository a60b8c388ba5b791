import LineBasic.Token.Basic

/-! Joining of relational operators. A stored program line holds `<=` as the two operators `<` and
`=`. The tokens are gone through two by two first, and each pair that forms an operator is noted with
its place, where a joined operator joins no further. After that the pairs are joined in place, the
last one first. -/

namespace LineBasic.Token

/-- The token that two neighbours form, if they form an operator. -/
def join? (left right : Token) : Option Token :=
  (Kind.joined? left.kind right.kind).map fun kind => ⟨kind, left.literal ++ right.literal⟩

/-- A place at which two tokens are to be joined: the index of the first, and the token that they
form. -/
structure Site where
  index : Nat
  token : Token
  deriving Repr, DecidableEq

/-- The windows of a list whose first token has this index: each two neighbours, with the index of
the first. -/
def windowsFrom : Nat → List Token → List (Nat × Token × Token)
  | index, left :: right :: rest => (index, left, right) :: windowsFrom (index + 1) (right :: rest)
  | _, _ => []

/-- The windows whose tokens form an operator. The window behind one of these shares a token with it
and is left out. -/
def sitesAmong : List (Nat × Token × Token) → List Site
  | [] => []
  | (index, left, right) :: rest =>
      match join? left right with
      | none => sitesAmong rest
      | some token =>
          match rest with
          | [] => [⟨index, token⟩]
          | _ :: later => ⟨index, token⟩ :: sitesAmong later

/-- The places at which a list of tokens is to be joined. -/
def sites (tokens : List Token) : List Site := sitesAmong (windowsFrom 0 tokens)

/-- Puts the token of a site in the place of two tokens. -/
def splice (site : Site) (tokens : List Token) : List Token :=
  tokens.take site.index ++ site.token :: tokens.drop (site.index + 2)

/-- Joins at all sites, the last one first. -/
def spliceAll (sites : List Site) (tokens : List Token) : List Token := sites.foldr splice tokens

/-- Joins relational operators that arrive as separate tokens. -/
def joinRelational (tokens : List Token) : List Token := spliceAll (sites tokens) tokens

end LineBasic.Token
