import LineBasic.Proofs.Joining
import LineBasic.Proofs.Records

/-! The blocks of a decoded program. Every complete record becomes one block of tokens: the number of
the line, the tokens of its payload, and the end of the line. The payload gives no token between
statements, unless a line feed stands in text that is scanned: that ends a line within the block. -/

namespace LineBasic

namespace Token

/-- On a line that has begun, a text without a line feed is scanned to tokens of statements only. -/
theorem Scanner.isFrame_of_inLine (scanner : Scanner) (hline : '\n' ∉ scanner.rest)
    (hstart : scanner.lineStart = false) : ∀ token ∈ scanner.tokens, token.kind.isFrame = false := by
  induction scanner using Scanner.tokens.induct with
  | case1 scanner hnone => simp [Scanner.tokens_of_next?_eq_none hnone]
  | case2 scanner token after hsome ih =>
      have hrest : '\n' ∉ after.rest := fun hmem => hline ((Scanner.suffix_of_next? hsome).subset hmem)
      have hstep : token.kind.isFrame = false ∧ after.lineStart = false := by
        cases Scanner.reads_of_next? hsome with
        | remark => exact ⟨rfl, hstart⟩
        | lineEnd _ hskip =>
            exact absurd ((List.dropWhile_suffix isSpace).subset (hskip ▸ List.mem_cons_self)) hline
        | @data c rest => exact ⟨Piece.ofData_isFrame c rest, hstart⟩
        | lineNumber _ _ hnumber =>
            rw [hstart] at hnumber
            cases hnumber
        | @statement c rest => exact ⟨Piece.ofStatement_isFrame c rest, rfl⟩
      rw [Scanner.tokens_of_next?_eq_some hsome]
      exact List.forall_mem_cons.mpr ⟨hstep.1, ih hrest hstep.2⟩

theorem isFrame_lexFragment {text : List Char} (h : '\n' ∉ text) (inData : Bool) :
    ∀ token ∈ lexFragment text inData, token.kind.isFrame = false :=
  Scanner.isFrame_of_inLine _ h rfl

/-- A line feed that no mark of the end precedes ends a line. -/
theorem endOfLine_mem_lexFragment {text : List Char} (hline : '\n' ∈ text) (hmark : endMark ∉ text)
    (inData : Bool) : endOfLine ∈ lexFragment text inData := by
  obtain ⟨before, after, rfl⟩ := List.append_of_mem hline
  have htokens := Scanner.tokens_extend_newline after
    ⟨before, if inData then .data else .statement, false⟩ fun hmem => hmark (by simp [hmem])
  have hextend : lexFragment (before ++ '\n' :: after) inData =
      (Scanner.extend ⟨before, if inData then .data else .statement, false⟩ ('\n' :: after)).tokens := rfl
  rw [hextend, htokens]
  simp

section Joining

/-- The tokens between statements that a list holds. -/
def frames (tokens : List Token) : List Token := tokens.filter fun token => token.kind.isFrame

theorem frames_append (left right : List Token) : frames (left ++ right) = frames left ++ frames right :=
  List.filter_append ..

/-- The relational operators. -/
def Kind.isRelational : Kind → Bool
  | .eq | .ne | .lt | .gt | .le | .ge => true
  | _ => false

theorem isFrame_of_isRelational {kind : Kind} (h : kind.isRelational = true) : kind.isFrame = false := by
  cases kind with
  | lineNumber | eol | eof => cases h
  | _ => rfl

theorem isRelational_of_joined? {first second kind : Kind} (h : Kind.joined? first second = some kind) :
    first.isRelational = true ∧ second.isRelational = true := by
  unfold Kind.joined? at h
  split at h <;> cases h <;> exact ⟨rfl, rfl⟩

/-- Joining relational operators leaves the tokens between statements as they are. -/
theorem frames_joinRelational (tokens : List Token) :
    frames (joinRelational tokens) = frames tokens := by
  rw [joinRelational_eq_joinPairs]
  induction tokens using joinPairs.induct with
  | case1 left right rest joined hjoin ih =>
      obtain ⟨kind, hkind, rfl⟩ := Option.map_eq_some_iff.mp hjoin
      obtain ⟨hleft, hright⟩ := isRelational_of_joined? hkind
      rw [joinPairs_of_some hjoin]
      simp only [frames, List.filter_cons, isFrame_of_isRelational hleft, isFrame_of_isRelational hright,
        joined?_isFrame hkind, Bool.false_eq_true, if_false] at ih ⊢
      exact ih
  | case2 left right rest hjoin ih =>
      rw [joinPairs_of_none hjoin, ← List.singleton_append, frames_append, ih, ← frames_append]
      rfl
  | case3 tokens hshort => rw [joinPairs_of_short hshort]

theorem mem_frames {token : Token} {tokens : List Token} :
    token ∈ frames tokens ↔ token ∈ tokens ∧ token.kind.isFrame = true :=
  List.mem_filter

end Joining

end Token

namespace Image

open Token

/-- The text of an element that is handed to the scanner. -/
def Element.text : Element → List Char
  | .verbatim text => text
  | .word text => text.toList
  | .data body => body
  | _ => []

/-- All text of a record that is handed to the scanner. -/
def Record.text (record : Record) : List Char := record.elements.flatMap Element.text

/-- The tokens of a record between its number and the end of its line. -/
def Record.inside (record : Record) : List Token := joinRelational (tokensOf [] record.elements)

/-- A line of tokens: its number, what it holds, and its end. -/
def block (number : Nat) (inside : List Token) : List Token :=
  ⟨.lineNumber, toString number⟩ :: (inside ++ [endOfLine])

section Tokens

variable {c : Char} {text : List Char} {elements : List Element}

theorem mem_appendWord {word : String} (hblank : c ≠ ' ') :
    c ∈ appendWord text word ↔ c ∈ text ∨ c ∈ word.toList := by
  unfold appendWord
  split
  · split <;> simp [hblank]
  · rename_i hlast
    rw [List.getLast?_eq_none_iff] at hlast
    simp [hlast]

/-- A property of tokens that holds for all that is scanned from the text and for the tokens of the
elements holds for all tokens of the elements. -/
theorem forall_mem_tokensOf {P : Token → Prop} {Q : Char → Prop}
    (hinner : ∀ element ∈ elements, element.IsInner)
    (hscan : ∀ text inData, (∀ c ∈ text, Q c) → ∀ token ∈ lexFragment text inData, P token)
    (hframe : ∀ token : Token, token.kind.isFrame = false → P token) (hblank : Q ' ')
    (htext : ∀ c ∈ text, Q c) (helements : ∀ element ∈ elements, ∀ c ∈ element.text, Q c) :
    ∀ token ∈ tokensOf text elements, P token := by
  fun_induction tokensOf text elements with
  | case1 text => exact hscan text false htext
  | case2 text rest ih => exact absurd (hinner .finish List.mem_cons_self) id
  | case3 text more rest ih =>
      rw [List.forall_mem_cons] at hinner helements
      exact ih hinner.2 (List.forall_mem_append.mpr ⟨htext, helements.1⟩) helements.2
  | case4 text more rest ih =>
      rw [List.forall_mem_cons] at hinner helements
      refine ih hinner.2 (fun c hc => ?_) helements.2
      by_cases hspace : c = ' '
      · exact hspace ▸ hblank
      · rcases (mem_appendWord hspace).mp hc with hc | hc
        · exact htext c hc
        · exact helements.1 c hc
  | case5 text value rest ih =>
      rw [List.forall_mem_cons] at hinner helements
      exact List.forall_mem_append.mpr ⟨hscan text false htext, List.forall_mem_cons.mpr
        ⟨hframe value hinner.1, ih hinner.2 (by simp) helements.2⟩⟩
  | case6 text mark body rest ih =>
      rw [List.forall_mem_cons] at hinner helements
      exact List.forall_mem_append.mpr ⟨hscan text false htext, List.forall_mem_cons.mpr
        ⟨hframe _ rfl, List.forall_mem_cons.mpr ⟨hframe _ rfl, ih hinner.2 (by simp) helements.2⟩⟩⟩
  | case7 text body rest ih =>
      rw [List.forall_mem_cons] at hinner helements
      exact List.forall_mem_append.mpr ⟨hscan text false htext, List.forall_mem_cons.mpr
        ⟨hframe _ rfl, List.forall_mem_append.mpr
          ⟨hscan body true helements.1, ih hinner.2 (by simp) helements.2⟩⟩⟩

/-- A line feed in the text ends a line, if no mark of the end is in it. -/
theorem endOfLine_mem_tokensOf (hmark : endMark ∉ text ++ elements.flatMap Element.text)
    (hline : '\n' ∈ text ++ elements.flatMap Element.text) : endOfLine ∈ tokensOf text elements := by
  -- a line feed is in the text that is scanned next, or in that of the elements after it
  have hscan : ∀ {text rest : List Char} {inData : Bool} {tokens : List Token},
      endMark ∉ text ++ rest → '\n' ∈ text ++ rest →
      (endMark ∉ rest → '\n' ∈ rest → endOfLine ∈ tokens) →
      endOfLine ∈ lexFragment text inData ++ tokens := by
    intro text rest inData tokens hmark hline htokens
    rw [List.mem_append, not_or] at hmark
    rcases List.mem_append.mp hline with hline | hline
    · exact List.mem_append_left _ (endOfLine_mem_lexFragment hline hmark.1 inData)
    · exact List.mem_append_right _ (htokens hmark.2 hline)
  fun_induction tokensOf text elements with
  | case1 text =>
      rw [List.flatMap_nil, List.append_nil] at hmark hline
      exact endOfLine_mem_lexFragment hline hmark false
  | case2 text rest ih => exact ih hmark hline
  | case3 text more rest ih =>
      rw [List.flatMap_cons, ← List.append_assoc] at hmark hline
      exact ih hmark hline
  | case4 text more rest ih =>
      have hmem : ∀ c, c ≠ ' ' → (c ∈ appendWord text more ++ rest.flatMap Element.text ↔
          c ∈ text ++ (Element.word more :: rest).flatMap Element.text) := by
        intro c hc
        simp only [List.mem_append, mem_appendWord hc, List.flatMap_cons, Element.text, or_assoc]
      exact ih (mt (hmem endMark (by decide)).mp hmark) ((hmem '\n' (by decide)).mpr hline)
  | case5 text value rest ih =>
      exact hscan hmark hline fun hmark hline => List.mem_cons_of_mem _ (ih hmark hline)
  | case6 text mark body rest ih =>
      exact hscan hmark hline fun hmark hline =>
        List.mem_cons_of_mem _ (List.mem_cons_of_mem _ (ih hmark hline))
  | case7 text body rest ih =>
      exact hscan hmark hline fun hmark hline => List.mem_cons_of_mem _ (hscan hmark hline ih)

end Tokens

section Inside

variable {chunk : Chunk}

theorem mem_inside_iff {record : Record} {token : Token} (h : token.kind.isFrame = true) :
    token ∈ record.inside ↔ token ∈ tokensOf [] record.elements := by
  have hframes : frames record.inside = frames (tokensOf [] record.elements) := frames_joinRelational _
  have hmem : token ∈ frames record.inside ↔ token ∈ frames (tokensOf [] record.elements) := by
    rw [hframes]
  simpa [mem_frames, h] using hmem

/-- The end of all tokens is never inside a record. -/
theorem kind_ne_eof_inside (chunk : Chunk) : ∀ token ∈ chunk.record.inside, token.kind ≠ .eof := by
  intro token hmem heof
  rw [mem_inside_iff (by rw [heof]; rfl)] at hmem
  exact forall_mem_tokensOf (P := fun token => token.kind ≠ .eof) (Q := fun _ => True) chunk.isInner
    (fun text inData _ => Scanner.kind_ne_eof _) (fun token => ne_eof_of_isFrame) trivial
    (fun _ _ => trivial) (fun _ _ _ _ => trivial) token hmem heof

/-- Without a line feed in its text, a record holds nothing but the tokens of statements. -/
theorem isFrame_inside (h : '\n' ∉ chunk.record.text) :
    ∀ token ∈ chunk.record.inside, token.kind.isFrame = false := by
  intro token hmem
  cases hkind : token.kind.isFrame with
  | false => rfl
  | true =>
      have htext : ∀ element ∈ chunk.record.elements, ∀ c ∈ element.text, c ≠ '\n' := by
        rintro element helement c hc rfl
        exact h (List.mem_flatMap.mpr ⟨element, helement, hc⟩)
      rw [← hkind]
      exact forall_mem_tokensOf (P := fun token => token.kind.isFrame = false)
        (Q := fun c => c ≠ '\n') chunk.isInner
        (fun text inData hline => isFrame_lexFragment (fun hmem => hline _ hmem rfl) inData)
        (fun token => id) (by decide) (by simp) htext token ((mem_inside_iff hkind).mp hmem)

theorem endOfLine_mem_inside (hmark : endMark ∉ chunk.record.text) (hline : '\n' ∈ chunk.record.text) :
    endOfLine ∈ chunk.record.inside := by
  rw [mem_inside_iff rfl]
  exact endOfLine_mem_tokensOf (by rwa [List.nil_append]) (by rwa [List.nil_append])

end Inside

/-- A stored program is decoded to one block for each complete record, in their order, and the end of
all tokens. No block has that end inside. It has the number or the end of a line inside only if a line
feed stands in text that is scanned, and that always ends a line where no mark of the end is in the text. -/
theorem tokens_blocks {bytes : List UInt8} (h : IsStored bytes) :
    (∃ rest, body bytes = (chunks (body bytes)).flatMap Chunk.bytes ++ rest ∧ record? rest = none) ∧
      tokens bytes = ((chunks (body bytes)).flatMap fun chunk =>
        block chunk.record.number chunk.record.inside) ++ [endOfInput] ∧
      ∀ chunk ∈ chunks (body bytes),
        (∀ token ∈ chunk.record.inside, token.kind ≠ .eof) ∧
        ('\n' ∉ chunk.record.text →
          ∀ token ∈ chunk.record.inside, token.kind ≠ .lineNumber ∧ token.kind ≠ .eol) ∧
        (endMark ∉ chunk.record.text → '\n' ∈ chunk.record.text →
          endOfLine ∈ chunk.record.inside) := by
  refine ⟨exists_rest (body bytes), tokens_stored h, fun chunk _ =>
    ⟨kind_ne_eof_inside chunk, fun hline token hmem => ?_, endOfLine_mem_inside⟩⟩
  have hkind := isFrame_inside hline token hmem
  constructor
  · intro heq
    rw [heq] at hkind
    cases hkind
  · intro heq
    rw [heq] at hkind
    cases hkind

/-- The two lines of `firstLine` and `secondLine`, neither with a line feed in its text. -/
theorem tokens_blocks_twoLines :
    let bytes := 0xFF :: ([firstLine, secondLine].flatMap Chunk.bytes ++ [0x00, 0x00])
    IsStored bytes ∧ chunks (body bytes) = [firstLine, secondLine] ∧
      tokens bytes = block 10 firstLine.record.inside ++ block 20 secondLine.record.inside ++ [endOfInput] ∧
      ∀ chunk ∈ [firstLine, secondLine], '\n' ∉ chunk.record.text ∧
        ∀ token ∈ chunk.record.inside, token.kind ≠ .lineNumber ∧ token.kind ≠ .eol := by
  intro bytes
  have hchunks : chunks (body bytes) = [firstLine, secondLine] :=
    chunks_flatMap [firstLine, secondLine] (rfl : record? [0x00, 0x00] = none)
  have hstored : IsStored bytes := .inl rfl
  obtain ⟨-, htokens, hinside⟩ := tokens_blocks hstored
  rw [hchunks] at htokens hinside
  simp only [List.flatMap_cons, List.flatMap_nil, List.append_nil] at htokens
  have hline : ∀ chunk ∈ [firstLine, secondLine], '\n' ∉ chunk.record.text := by decide
  exact ⟨hstored, hchunks, htokens, fun chunk hmem => ⟨hline chunk hmem,
    (hinside chunk hmem).2.1 (hline chunk hmem)⟩⟩

/-- Each block has two tokens between statements, if none of them is inside. -/
theorem length_frames_blocks {blocks : List (Nat × List Token)}
    (h : ∀ entry ∈ blocks, ∀ token ∈ entry.2, token.kind.isFrame = false) :
    (frames (blocks.flatMap fun entry => block entry.1 entry.2)).length = 2 * blocks.length := by
  induction blocks with
  | nil => rfl
  | cons entry blocks ih =>
      rw [List.forall_mem_cons] at h
      have hinside : frames entry.2 = [] := by
        rw [frames, List.filter_eq_nil_iff]
        intro token hmem
        rw [h.1 token hmem]
        exact Bool.false_ne_true
      have hblock : frames (block entry.1 entry.2) = [⟨.lineNumber, toString entry.1⟩, endOfLine] := by
        change _ :: frames (entry.2 ++ [endOfLine]) = _
        rw [frames_append, hinside]
        rfl
      rw [List.flatMap_cons, frames_append, List.length_append, ih h.2, hblock, List.length_cons]
      simp only [List.length_cons, List.length_nil]
      omega

/-- A line feed between the names A and B of line 10 ends the line between them, and the tokens are no
sequence of blocks. -/
theorem tokens_newline_in_payload :
    let bytes := [0xFF, 0x01, 0x01, 0x0A, 0x00, 0x41, 0x0A, 0x42, 0x00, 0x00, 0x00]
    IsStored bytes ∧
      tokens bytes = [⟨.lineNumber, "10"⟩, ⟨.ident, "A"⟩, endOfLine, ⟨.ident, "B"⟩, endOfLine,
        endOfInput] ∧
      ¬∃ blocks : List (Nat × List Token),
        (∀ entry ∈ blocks, ∀ token ∈ entry.2, token.kind.isFrame = false) ∧
        tokens bytes = (blocks.flatMap fun entry => block entry.1 entry.2) ++ [endOfInput] := by
  intro bytes
  have htokens : tokens bytes = [⟨.lineNumber, "10"⟩, ⟨.ident, "A"⟩, endOfLine, ⟨.ident, "B"⟩,
      endOfLine, endOfInput] := by decide +kernel
  refine ⟨.inl rfl, htokens, ?_⟩
  rintro ⟨blocks, hinside, heq⟩
  have hcount := congrArg (fun tokens => (frames tokens).length) (heq.symm.trans htokens)
  rw [frames_append, List.length_append, length_frames_blocks hinside] at hcount
  change 2 * blocks.length + 1 = 4 at hcount
  omega

end Image

end LineBasic
