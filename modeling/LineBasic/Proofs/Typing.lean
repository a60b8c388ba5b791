import LineBasic.Proofs.Entering
import LineBasic.Proofs.Lines
import LineBasic.Proofs.Returns
import LineBasic.Session.Run
import LineBasic.Text.Split

/-! Typing a listing. The lines of a text are entered one after the other into a session that has done
nothing yet, each on its own and without the returns at its end. What comes of it is the program that the
text gives as a file, which is decoded and read at once: a line is refused in the one where its fault is
reported in the other. -/

namespace LineBasic

open Token

section Bytes

theorem toList_loop (bytes : ByteArray) (i : Nat) (taken : List UInt8) :
    ByteArray.toList.loop bytes i taken = taken.reverse ++ bytes.data.toList.drop i := by
  fun_induction ByteArray.toList.loop bytes i taken with
  | case1 i taken hlt ih =>
      have hlength : i < bytes.data.toList.length := by rwa [Array.length_toList, ByteArray.size_data]
      have hget : bytes.get! i = bytes.data.toList[i] := getElem!_pos bytes.data i hlt
      rw [ih, List.drop_eq_getElem_cons hlength, hget, List.reverse_cons, List.append_assoc,
        List.singleton_append]
  | case2 i taken hge =>
      have hlength : bytes.data.toList.length ≤ i := by
        rw [Array.length_toList, ByteArray.size_data]
        omega
      rw [List.drop_eq_nil_of_le hlength, List.append_nil]

/-- The bytes of a text of seven-bit characters are their numbers. -/
theorem toList_toUTF8 {text : String} (h : ∀ c ∈ text.toList, c.toNat < 128) :
    text.toUTF8.toList = text.toList.map fun c => UInt8.ofNat c.toNat := by
  have hchar : ∀ c ∈ text.toList, String.utf8EncodeChar c = [UInt8.ofNat c.toNat] :=
    fun c hc => Text.utf8EncodeChar_of_lt (h c hc)
  have hbytes : text.toUTF8 = (text.toList.flatMap String.utf8EncodeChar).toByteArray := by
    rw [String.toUTF8, ← List.utf8Encode, ← String.toByteArray_ofList, String.ofList_toList]
  rw [hbytes, ByteArray.toList, toList_loop, List.data_toByteArray, List.flatMap_congr hchar,
    ← List.map_eq_flatMap]
  rfl

/-- A file of seven-bit characters, without the mark of its end, is scanned as the text it is. -/
theorem tokens_toUTF8 {text : String} (hascii : ∀ c ∈ text.toList, c.toNat < 128)
    (hmark : endMark ∉ text.toList) :
    Image.Form.ofBytes text.toUTF8.toList = .text ∧ Image.tokens text.toUTF8.toList = lex text := by
  have hbyte : ∀ c ∈ text.toList, (UInt8.ofNat c.toNat).toNat = c.toNat := by
    intro c hc
    have hsmall := hascii c hc
    rw [UInt8.toNat_ofNat']
    omega
  have hform : Image.Form.ofBytes text.toUTF8.toList = .text := by
    rw [toList_toUTF8 hascii, Image.Form.ofBytes, List.head?_map]
    cases hhead : text.toList.head? with
    | none => rfl
    | some c =>
        have hc : c ∈ text.toList := List.mem_of_mem_head? hhead
        have hsmall := hascii c hc
        have hnat := hbyte c hc
        rw [Option.map_some]
        split
        · rename_i heq
          rw [Option.some.inj heq] at hnat
          change 255 = c.toNat at hnat
          omega
        · rename_i heq
          rw [Option.some.inj heq] at hnat
          change 254 = c.toNat at hnat
          omega
        · rfl
  have hkept : ∀ byte ∈ text.toUTF8.toList, (byte != 0x1A) = true := by
    rw [toList_toUTF8 hascii]
    intro byte hmem
    obtain ⟨c, hc, rfl⟩ := List.mem_map.mp hmem
    rw [bne_iff_ne]
    intro heq
    apply hmark
    have hnat := hbyte c hc
    rw [heq] at hnat
    have hchar : c = endMark := Chars.eq_iff.mpr hnat.symm
    rwa [hchar] at hc
  have hchars : text.toUTF8.toList.map (fun byte => Char.ofNat byte.toNat) = text.toList := by
    rw [toList_toUTF8 hascii, List.map_map]
    refine (List.map_congr_left fun c hc => ?_).trans (List.map_id _)
    change Char.ofNat (UInt8.ofNat c.toNat).toNat = c
    rw [hbyte c hc, Char.ofNat_toNat]
  have hplain : Image.plainText text.toUTF8.toList = text := by
    rw [Image.plainText, List.takeWhile_eq_self_iff.mpr hkept, latinText, hchars, String.ofList_toList]
  refine ⟨hform, ?_⟩
  rw [Image.tokens, hform]
  exact congrArg lex hplain

/-- A file that is a text without direct statements. -/
theorem Program.ofBytes_toUTF8 {text : String} (hascii : ∀ c ∈ text.toList, c.toNat < 128)
    (hmark : endMark ∉ text.toList)
    (hdirect : ∀ line ∈ (Parsed.ofTokens (lex text)).lines, line.isDirect = false) :
    Program.ofBytes text.toUTF8.toList =
      ((Parsed.ofTokens (lex text)).lines.foldl Program.insert {}, (Parsed.ofTokens (lex text)).faults) := by
  obtain ⟨hform, htokens⟩ := tokens_toUTF8 hascii hmark
  have hnumbered : ((Parsed.ofTokens (lex text)).lines.filter fun line => !line.isDirect) =
      (Parsed.ofTokens (lex text)).lines := by
    apply List.filter_eq_self.mpr
    intro line hline
    rw [hdirect line hline]
    rfl
  have hnone : ((Parsed.ofTokens (lex text)).lines.filter fun line => line.isDirect && !line.isEmpty) = [] := by
    apply List.filter_eq_nil_iff.mpr
    intro line hline
    rw [hdirect line hline]
    simp
  unfold Program.ofBytes
  dsimp only
  rw [htokens, hform, hnumbered, hnone, List.map_nil, List.append_nil]
  rfl

end Bytes

section Pieces

/-- The readings of texts, one after the other. -/
def Parsed.ofPieces (pieces : List String) : Parsed :=
  pieces.foldr (fun piece parsed => (ofTokens (lex piece)).append parsed) empty

theorem Parsed.append_empty (parsed : Parsed) : parsed.append empty = parsed := by
  rw [append, empty, List.append_nil, List.append_nil]

/-- A text is read as the pieces between its line feeds are. -/
theorem Parsed.ofTokens_lex_join (pieces : List (List Char)) (hne : pieces ≠ [])
    (hmark : ∀ piece ∈ pieces, endMark ∉ piece) :
    ofTokens (lex (String.ofList (Text.join '\n' pieces))) = ofPieces (pieces.map String.ofList) := by
  induction pieces with
  | nil => exact absurd rfl hne
  | cons piece rest ih =>
      cases rest with
      | nil => exact (append_empty _).symm
      | cons next others =>
          rw [List.forall_mem_cons] at hmark
          have hrest := ih (by simp) hmark.2
          rw [Text.join, ofTokens_lex_newline _ _ hmark.1, hrest]
          · rfl
          · simp

/-- The pieces of a text between its line feeds. -/
def pieces (text : String) : List String := (Text.split '\n' text.toList).map String.ofList

theorem mem_piece {text piece : String} (h : piece ∈ pieces text) {c : Char} (hc : c ∈ piece.toList) :
    c ≠ '\n' ∧ c ∈ text.toList := by
  obtain ⟨part, hpart, rfl⟩ := List.mem_map.mp h
  rw [String.toList_ofList] at hc
  exact Text.mem_of_mem_split hpart hc

theorem Parsed.ofTokens_lex_pieces {text : String} (hmark : endMark ∉ text.toList) :
    ofTokens (lex text) = ofPieces (pieces text) := by
  have hjoin := ofTokens_lex_join _ (Text.split_ne_nil '\n' text.toList) fun part hpart hc =>
    hmark (Text.mem_of_mem_split hpart hc).2
  rwa [Text.join_split, String.ofList_toList] at hjoin

/-- A text without a line feed is one line: it gives a fault, nothing or a line. -/
theorem Parsed.ofTokens_lex_line {text : String} (h : '\n' ∉ text.toList) :
    (∃ fault, ofTokens (lex text) = ⟨[], [fault]⟩) ∨ ofTokens (lex text) = empty ∨
      ∃ line, ofTokens (lex text) = ⟨[line], []⟩ := by
  have hone : ofTokens (lex text) = empty.cons (Line.ofTokens? (Scanner.ofText text.toList).tokens) := by
    rw [ofTokens_lex, splitLines_inLine (Scanner.kind_ne_eol _ h)]
    rfl
  rw [hone]
  rcases Line.ofTokens? (Scanner.ofText text.toList).tokens with fault | ⟨_ | line⟩
  · exact .inl ⟨fault, rfl⟩
  · exact .inr (.inl rfl)
  · exact .inr (.inr ⟨line, rfl⟩)

end Pieces

namespace Session

/-- Enters texts one after the other: those that were refused, and the session after all of them. -/
def typeIn (session : Session) : List String → List String × Session
  | [] => ([], session)
  | text :: rest =>
      let (taken, after) := session.enter text
      let (refused, final) := after.typeIn rest
      (if taken then refused else text :: refused, final)

/-- The returns at the end of a line that is entered do not matter. -/
theorem ofTokens_lex_entered {text : String} (hline : '\n' ∉ text.toList) :
    Parsed.ofTokens (lex (String.ofList (Text.dropEndWhile (fun c => c == '\r' || c == '\n') text.toList))) =
      Parsed.ofTokens (lex text) := by
  have hsplit := Text.dropEndWhile_append_takeWhile (fun c => c == '\r' || c == '\n') text.toList
  have htail : Returns (text.toList.reverse.takeWhile fun c => c == '\r' || c == '\n').reverse := by
    intro c hc
    have hmem := List.mem_reverse.mp hc
    have hc : c ∈ text.toList := List.mem_reverse.mp ((List.takeWhile_prefix _).subset hmem)
    have hend := List.mem_takeWhile_imp hmem
    rw [Bool.or_eq_true, beq_iff_eq, beq_iff_eq] at hend
    rcases hend with hreturn | rfl
    · exact hreturn
    · exact absurd hc hline
  rw [← Parsed.ofTokens_lex_returns htail, hsplit, String.ofList_toList]

/-- What entering a line does where no number is put in front: it is taken in, or its fault reported. -/
theorem enter_of_line {session : Session} (hauto : session.settings.auto = none) {text : String}
    (hline : '\n' ∉ text.toList) :
    session.enter text =
      if (Parsed.ofTokens (lex text)).faults.isEmpty then
        (true, (Parsed.ofTokens (lex text)).lines.foldl takeLine session)
      else (false, session.report (.faults (Parsed.ofTokens (lex text)).faults)) := by
  rw [enter, numberedText_of_auto_none hauto, entryText]
  dsimp only
  rw [ofTokens_lex_entered hline]

/-- What typing lines in leaves: the program with the lines that could be read, and the faults of the
others, each reported where its line was refused. -/
structure Typed (session : Session) (read : Parsed) (typed : List String × Session) : Prop where
  program : typed.2.program = read.lines.foldl Program.insert session.program
  refused : List.Forall₂ (fun text fault => (Parsed.ofTokens (lex text)).faults = [fault]) typed.1 read.faults
  events : typed.2.events = session.events ++ read.faults.map fun fault => .faults [fault]

theorem typed_typeIn (pieces : List String) (hline : ∀ piece ∈ pieces, '\n' ∉ piece.toList)
    (hdirect : ∀ line ∈ (Parsed.ofPieces pieces).lines, line.isDirect = false) (session : Session)
    (hauto : session.settings.auto = none) :
    Typed session (Parsed.ofPieces pieces) (session.typeIn pieces) := by
  induction pieces generalizing session with
  | nil => exact ⟨rfl, .nil, (List.append_nil _).symm⟩
  | cons piece rest ih =>
      have hwhole : Parsed.ofPieces (piece :: rest) = (Parsed.ofTokens (lex piece)).append (Parsed.ofPieces rest) :=
        rfl
      rw [List.forall_mem_cons] at hline
      rw [hwhole] at hdirect ⊢
      have henter := enter_of_line hauto hline.1
      obtain ⟨fault, hread⟩ | hread | ⟨line, hread⟩ := Parsed.ofTokens_lex_line hline.1
      · rw [hread] at hdirect henter ⊢
        have hrest := ih hline.2 hdirect (session.report (.faults [fault])) hauto
        have htyped : session.typeIn (piece :: rest) =
            (piece :: ((session.report (.faults [fault])).typeIn rest).1,
              ((session.report (.faults [fault])).typeIn rest).2) := by
          rw [typeIn, henter]
          rfl
        rw [htyped]
        refine ⟨hrest.program, .cons (by rw [hread]) hrest.refused, hrest.events.trans ?_⟩
        exact List.append_assoc ..
      · rw [hread] at hdirect henter ⊢
        have htyped : session.typeIn (piece :: rest) = session.typeIn rest := by
          rw [typeIn, henter]
          rfl
        rw [htyped]
        exact ih hline.2 hdirect session hauto
      · rw [hread] at hdirect henter ⊢
        have hnumbered : line.isDirect = false := hdirect line List.mem_cons_self
        have htake : (session.takeLine line).program = session.program.insert line ∧
            (session.takeLine line).settings.auto = none ∧ (session.takeLine line).events = session.events := by
          rw [takeLine, hnumbered]
          exact ⟨rfl, hauto, rfl⟩
        have hrest := ih hline.2 (fun other hother => hdirect other (List.mem_cons_of_mem _ hother))
          (session.takeLine line) htake.2.1
        have htyped : session.typeIn (piece :: rest) = (session.takeLine line).typeIn rest := by
          rw [typeIn, henter]
          rfl
        rw [htyped]
        refine ⟨?_, hrest.refused, ?_⟩
        · rw [hrest.program, htake.1]
          rfl
        · rw [hrest.events, htake.2.2]
          rfl

/-- **Loading a listing equals typing it.** A file of seven-bit characters in which no line is a direct
statement gives the program that a new session has after the pieces of the file were entered one by one.
The pieces that were refused are those whose faults the file reports, in their order. -/
theorem typing_equals_loading (random : Random) (text : String) (hascii : ∀ c ∈ text.toList, c.toNat < 128)
    (hmark : endMark ∉ text.toList)
    (hdirect : ∀ line ∈ (Parsed.ofTokens (lex text)).lines, line.isDirect = false) :
    let typed := typeIn (.new random) (pieces text)
    let loaded := Program.ofBytes text.toUTF8.toList
    typed.2.program = loaded.1 ∧
      List.Forall₂ (fun piece fault => (Parsed.ofTokens (lex piece)).faults = [fault]) typed.1 loaded.2 ∧
      typed.2.events = loaded.2.map fun fault => .faults [fault] := by
  have hread : Parsed.ofTokens (lex text) = Parsed.ofPieces (pieces text) := Parsed.ofTokens_lex_pieces hmark
  have hline : ∀ piece ∈ pieces text, '\n' ∉ piece.toList := fun piece hpiece hc => (mem_piece hpiece hc).1 rfl
  have htyped := typed_typeIn (pieces text) hline (hread ▸ hdirect) (.new random) rfl
  dsimp only
  rw [Program.ofBytes_toUTF8 hascii hmark hdirect, hread]
  exact ⟨htyped.program, htyped.refused, htyped.events⟩

/-- Lines that end in a return, a blank line, a remark and an item with blanks at their ends, strings
without an end, a line that is deleted and one that is entered again. -/
def handTyped : String :=
  "10 PRINT 1\r\n\r\n20 REM A \r\n30 PRINT \"A\r\n10 DATA B ,C \r\n40 DATA \"D\r\n20\r\n99999 CLS\n50 GOTO"

theorem typing_equals_loading_handTyped :
    (∀ c ∈ handTyped.toList, c.toNat < 128) ∧ endMark ∉ handTyped.toList ∧
      (∀ line ∈ (Parsed.ofTokens (lex handTyped)).lines, line.isDirect = false) ∧
      (typeIn {} (pieces handTyped)).2.program = (Program.ofBytes handTyped.toUTF8.toList).1 := by
  obtain ⟨hall, hmark, hdirect⟩ : handTyped.toList.all (fun c => decide (c.toNat < 128)) = true ∧
      endMark ∉ handTyped.toList ∧ ∀ line ∈ (Parsed.ofTokens (lex handTyped)).lines, line.isDirect = false := by
    rw [← Text.characters_eq, lex_eq]
    decide +kernel
  have hascii : ∀ c ∈ handTyped.toList, c.toNat < 128 :=
    fun c hc => of_decide_eq_true (List.all_eq_true.mp hall c hc)
  exact ⟨hascii, hmark, hdirect, (typing_equals_loading {} handTyped hascii hmark hdirect).1⟩

end Session

end LineBasic
