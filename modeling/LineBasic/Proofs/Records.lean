import LineBasic.Image.Decode
import LineBasic.Proofs.Scan

/-! Where the records of a stored program lie. Reading an element looks at most at the two bytes that
follow it, and a payload ends with a zero byte, so a complete record is read by its own bytes alone,
whatever comes after them. The bytes of a program are cut into those of its complete records and a
rest that holds no further one. A program that is cut off is therefore decoded as far as its complete
records go. -/

namespace LineBasic.Image

/-- What a reader finds at the start of the bytes, it finds in the bytes that it takes there, as long
as the same byte follows them. -/
def LocalAt {α : Type} (read : List UInt8 → Option (α × List UInt8)) (bytes : List UInt8) : Prop :=
  ∀ value rest, read bytes = some (value, rest) →
    ∃ front, bytes = front ++ rest ∧
      ∀ other, other.head? = rest.head? → read (front ++ other) = some (value, other)

section Split

variable {read next : List UInt8 → Option (List UInt8 × List UInt8)} {byte : UInt8}
  {bytes : List UInt8}

/-- A reader that ends before a byte by which it ends. -/
theorem localAt_stop (hread : ∀ tail, read (byte :: tail) = some ([], byte :: tail)) :
    LocalAt read (byte :: bytes) := by
  intro body rest h
  rw [hread] at h
  obtain ⟨rfl, rfl⟩ := Prod.mk.inj (Option.some.inj h)
  refine ⟨[], rfl, fun other hhead => ?_⟩
  cases other with
  | nil => cases hhead
  | cons first more =>
      obtain rfl : first = byte := Option.some.inj hhead
      exact hread more

/-- A reader that takes a byte and goes on. -/
theorem localAt_cons (hnext : LocalAt next bytes)
    (hread : ∀ tail, read (byte :: tail) =
      (next tail).map fun (body, after) => (byte :: body, after)) :
    LocalAt read (byte :: bytes) := by
  intro body rest h
  rw [hread] at h
  obtain ⟨⟨inner, after⟩, hinner, heq⟩ := Option.map_eq_some_iff.mp h
  obtain ⟨rfl, rfl⟩ := Prod.mk.inj heq
  obtain ⟨front, rfl, hother⟩ := hnext inner after hinner
  refine ⟨byte :: front, rfl, fun other hhead => ?_⟩
  rw [List.cons_append, hread, hother other hhead]
  rfl

theorem splitAtZero?_cons (byte : UInt8) (bytes : List UInt8) :
    splitAtZero? (byte :: bytes) =
      if byte == 0 then some ([], byte :: bytes)
      else (splitAtZero? bytes).map fun (body, after) => (byte :: body, after) := by
  unfold splitAtZero?
  rw [List.dropWhile_cons, List.takeWhile_cons]
  by_cases hzero : (byte == 0) = true
  · have hstop : (byte != 0) = false := by simpa using hzero
    simp only [hzero, hstop]
    rfl
  · have hgoes : (byte != 0) = true := by simpa using hzero
    simp only [hzero, hgoes]
    cases bytes.dropWhile (· != 0) <;> rfl

theorem localAt_splitAtZero (bytes : List UInt8) : LocalAt splitAtZero? bytes := by
  induction bytes with
  | nil => exact fun _ _ h => nomatch h
  | cons byte bytes ih =>
      by_cases hstop : (byte == 0) = true
      · exact localAt_stop fun tail => by rw [splitAtZero?_cons, if_pos hstop]
      · exact localAt_cons ih fun tail => by rw [splitAtZero?_cons, if_neg hstop]

theorem localAt_splitData (quoted : Bool) (bytes : List UInt8) :
    LocalAt (splitData? quoted) bytes := by
  induction bytes generalizing quoted with
  | nil => exact fun _ _ h => nomatch h
  | cons byte bytes ih =>
      by_cases hstop : (byte == 0 || (byte == 0x3A && !quoted)) = true
      · exact localAt_stop fun tail => by rw [splitData?, if_pos hstop]
      · exact localAt_cons (ih _) fun tail => by rw [splitData?, if_neg hstop]

theorem localAt_splitQuoted (bytes : List UInt8) : LocalAt splitQuoted? bytes := by
  induction bytes with
  | nil => exact fun _ _ h => nomatch h
  | cons byte bytes ih =>
      by_cases hzero : (byte == 0) = true
      · exact localAt_stop fun tail => by rw [splitQuoted?, if_pos hzero]
      · by_cases hquote : (byte == 0x22) = true
        · have hread : ∀ tail, splitQuoted? (byte :: tail) = some ([], tail) := fun tail => by
            rw [splitQuoted?, if_neg hzero, if_pos hquote]
          intro body rest h
          rw [hread] at h
          obtain ⟨rfl, rfl⟩ := Prod.mk.inj (Option.some.inj h)
          exact ⟨[byte], rfl, fun other _ => hread other⟩
        · exact localAt_cons ih fun tail => by
            rw [splitQuoted?, if_neg hzero, if_neg hquote]

end Split

section Element

variable {bytes : List UInt8}

/-- An element inside a line: not the end of the payload, and no token between statements. -/
def Element.IsInner : Element → Prop
  | .finish => False
  | .token value => value.kind.isFrame = false
  | _ => True

theorem Element.IsInner.ne_finish {element : Element} (h : element.IsInner) : element ≠ .finish := by
  rintro rfl
  exact h

/-- What a reader of elements finds stands inside a line, and is found in the bytes that it takes, as
long as the same byte follows them. -/
def ElementAt (read : List UInt8 → Option (Element × List UInt8)) (bytes : List UInt8) : Prop :=
  LocalAt read bytes ∧ ∀ element rest, read bytes = some (element, rest) → element.IsInner

theorem elementAt_map {α : Type} {read : List UInt8 → Option (α × List UInt8)}
    (h : LocalAt read bytes) (f : α → Element) (hf : ∀ value, (f value).IsInner) :
    ElementAt (fun bytes => (read bytes).map fun (value, rest) => (f value, rest)) bytes := by
  constructor
  · intro element rest hread
    obtain ⟨⟨value, after⟩, hvalue, heq⟩ := Option.map_eq_some_iff.mp hread
    obtain ⟨rfl, rfl⟩ := Prod.mk.inj heq
    obtain ⟨front, rfl, hother⟩ := h value after hvalue
    refine ⟨front, rfl, fun other hhead => ?_⟩
    change (read (front ++ other)).map _ = _
    rw [hother other hhead]
    rfl
  · intro element rest hread
    obtain ⟨⟨value, after⟩, -, heq⟩ := Option.map_eq_some_iff.mp hread
    exact (Prod.mk.inj heq).1 ▸ hf value

/-- A reader that takes no further bytes. -/
theorem elementAt_here {read : List UInt8 → Option (Element × List UInt8)} {element : Element}
    (hread : ∀ bytes, read bytes = some (element, bytes)) (hinner : element.IsInner) :
    ElementAt read bytes := by
  constructor
  · intro found rest h
    rw [hread] at h
    obtain ⟨rfl, rfl⟩ := Prod.mk.inj (Option.some.inj h)
    exact ⟨[], rfl, fun other _ => hread other⟩
  · intro found rest h
    rw [hread] at h
    exact (Prod.mk.inj (Option.some.inj h)).1 ▸ hinner

theorem elementAt_nil {read : List UInt8 → Option (Element × List UInt8)} (h : read [] = none) :
    ElementAt read [] := by
  constructor
  · intro element rest hread
    cases h.symm.trans hread
  · intro element rest hread
    cases h.symm.trans hread

/-- A reader that takes a byte. -/
theorem elementAt_cons {read : List UInt8 → Option (Element × List UInt8)} {byte : UInt8}
    (h : ElementAt (fun tail => read (byte :: tail)) bytes) : ElementAt read (byte :: bytes) := by
  refine ⟨fun element rest hread => ?_, h.2⟩
  obtain ⟨front, rfl, hother⟩ := h.1 element rest hread
  exact ⟨byte :: front, rfl, hother⟩

theorem elementAt_remark (mark : String) (bytes : List UInt8) : ElementAt (remark? mark) bytes :=
  elementAt_map (localAt_splitAtZero bytes) (fun body => .remark mark (body.map latin)) fun _ => trivial

/-- WHILE takes a plus sign with it, if one follows. -/
theorem elementAt_while (text : String) (bytes : List UInt8) :
    ElementAt (fun rest => some (.token ⟨.keyword .WHILE, text⟩,
      if rest.head? = some 0xE9 then rest.tail else rest)) bytes := by
  refine ⟨fun element rest h => ?_, fun element rest h => (Prod.mk.inj (Option.some.inj h)).1 ▸ rfl⟩
  obtain ⟨rfl, hrest⟩ := Prod.mk.inj (Option.some.inj h)
  by_cases hplus : bytes.head? = some 0xE9
  · rw [if_pos hplus] at hrest
    obtain ⟨tail, rfl⟩ := List.head?_eq_some_iff.mp hplus
    exact ⟨[0xE9], by rw [← hrest]; rfl, fun other _ => rfl⟩
  · rw [if_neg hplus] at hrest
    subst hrest
    refine ⟨[], rfl, fun other hhead => ?_⟩
    have hother : ¬other.head? = some 0xE9 := hhead ▸ hplus
    simp only [List.nil_append, if_neg hother]

theorem operatorKind?_isFrame {text : String} {kind : Token.Kind} (h : operatorKind? text = some kind) :
    kind.isFrame = false := by
  unfold operatorKind? at h
  split at h <;> cases h <;> rfl

theorem elementAt_coded (table : List (UInt8 × String)) (code : UInt8) (bytes : List UInt8) :
    ElementAt (coded? table code) bytes := by
  unfold coded?
  cases table.lookup code with
  | none => exact elementAt_here (fun _ => rfl) trivial
  | some text =>
      dsimp only
      cases hkind : operatorKind? text with
      | some kind => exact elementAt_here (fun _ => rfl) (operatorKind?_isFrame hkind)
      | none =>
          cases Keyword.ofWord? text with
          | none =>
              by_cases hmark : text = String.ofList [Token.remarkMark]
              · simp only [if_pos hmark]
                exact elementAt_remark text bytes
              · simp only [if_neg hmark]
                exact elementAt_here (fun _ => rfl) trivial
          | some word =>
              cases word with
              | REM => exact elementAt_remark text bytes
              | DATA =>
                  exact elementAt_map (localAt_splitData false bytes)
                    (fun body => .data (body.map latin)) fun _ => trivial
              | WHILE => exact elementAt_while text bytes
              | _ => exact elementAt_here (fun _ => rfl) rfl

/-- The bytes that are not read on their own: they end a payload, are followed by what they announce,
or depend on what follows. -/
def leads : List UInt8 :=
  [0x00, 0x0B, 0x0C, 0x0D, 0x0E, 0x0F, 0x1C, 0x1D, 0x1F, 0x22, 0x3A, 0xFD, 0xFE, 0xFF]

/-- A byte that is read on its own is a small number, the code of a word, or a character. -/
theorem elementFrom?_alone {byte : UInt8} (h : byte ∉ leads) (rest : List UInt8) :
    elementFrom? byte rest =
      if 0x11 ≤ byte.toNat && byte.toNat ≤ 0x1B then
        some (decimalToken (toString (byte.toNat - 0x11)), rest)
      else if 0x81 ≤ byte.toNat && byte.toNat ≤ 0xF4 then coded? Codes.plain byte rest
      else some (.verbatim [latin byte], rest) := by
  have hlead : byte.toNat ∉ leads.map UInt8.toNat := by
    intro hmem
    obtain ⟨lead, hlead, heq⟩ := List.mem_map.mp hmem
    exact h (UInt8.toNat_inj.mp heq ▸ hlead)
  unfold elementFrom?
  split
  case h_27 => rfl
  all_goals simp_all [leads]

theorem isInner_decimalToken (literal : String) : (decimalToken literal).IsInner :=
  Token.numberKind_isFrame _

/-- A constant of two bytes. -/
theorem elementAt_pair {byte : UInt8} (hbyte : byte ∈ [0x0B, 0x0C, 0x0D, 0x0E, 0x1C])
    (bytes : List UInt8) : ElementAt (elementFrom? byte) bytes := by
  simp only [List.mem_cons, List.not_mem_nil, or_false] at hbyte
  rcases hbyte with rfl | rfl | rfl | rfl | rfl
  all_goals
    rcases bytes with _ | ⟨low, _ | ⟨high, bytes⟩⟩
    · exact elementAt_nil rfl
    · exact elementAt_cons (elementAt_nil rfl)
    · refine elementAt_cons (elementAt_cons (elementAt_here (fun _ => rfl) ?_))
      first | rfl | exact isInner_decimalToken _

/-- Nothing but a colon looks further than one byte. -/
theorem elementAt_elementFrom {byte : UInt8} (hzero : byte ≠ 0x00) (hcolon : byte ≠ 0x3A)
    (bytes : List UInt8) : ElementAt (elementFrom? byte) bytes := by
  by_cases hlead : byte ∈ leads
  · simp only [leads, List.mem_cons, List.not_mem_nil, or_false, hzero, hcolon, false_or] at hlead
    rcases hlead with rfl | rfl | rfl | rfl | rfl | rfl | rfl | rfl | rfl | rfl | rfl | rfl
    · exact elementAt_pair (by decide) bytes
    · exact elementAt_pair (by decide) bytes
    · exact elementAt_pair (by decide) bytes
    · exact elementAt_pair (by decide) bytes
    · cases bytes with
      | nil => exact elementAt_nil rfl
      | cons value bytes =>
          exact elementAt_cons (elementAt_here (fun _ => rfl) (isInner_decimalToken _))
    · exact elementAt_pair (by decide) bytes
    · iterate 4
        rcases bytes with _ | ⟨byte, bytes⟩
        · exact elementAt_nil rfl
        refine elementAt_cons ?_
      exact elementAt_here (fun _ => rfl) rfl
    · iterate 8
        rcases bytes with _ | ⟨byte, bytes⟩
        · exact elementAt_nil rfl
        refine elementAt_cons ?_
      exact elementAt_here (fun _ => rfl) rfl
    · exact elementAt_map (localAt_splitQuoted bytes)
        (fun body => .verbatim ('"' :: body.map latin ++ ['"'])) fun _ => trivial
    · cases bytes with
      | nil => exact elementAt_nil rfl
      | cons code bytes => exact elementAt_cons (elementAt_coded Codes.afterFD code bytes)
    · cases bytes with
      | nil => exact elementAt_nil rfl
      | cons code bytes => exact elementAt_cons (elementAt_coded Codes.afterFE code bytes)
    · cases bytes with
      | nil => exact elementAt_nil rfl
      | cons code bytes => exact elementAt_cons (elementAt_coded Codes.afterFF code bytes)
  · have halone := elementFrom?_alone hlead
    by_cases hsmall : (0x11 ≤ byte.toNat && byte.toNat ≤ 0x1B) = true
    · exact elementAt_here (fun rest => (halone rest).trans (if_pos hsmall))
        (isInner_decimalToken _)
    · by_cases hcode : (0x81 ≤ byte.toNat && byte.toNat ≤ 0xF4) = true
      · have hread : elementFrom? byte = coded? Codes.plain byte := by
          funext rest
          rw [halone, if_neg hsmall, if_pos hcode]
        rw [hread]
        exact elementAt_coded Codes.plain byte bytes
      · have hread : ∀ rest, elementFrom? byte rest = some (.verbatim [latin byte], rest) := by
          intro rest
          rw [halone, if_neg hsmall, if_neg hcode]
        exact elementAt_here hread trivial

/-- The same bytes, as far as the reading of an element looks at what follows it. -/
structure SameStart (rest other : List UInt8) : Prop where
  head : other.head? = rest.head?
  second : rest.head? = some 0x8F → other.take 2 = rest.take 2

theorem sameStart_payload (payload rest other : List UInt8) :
    SameStart (payload ++ 0 :: rest) (payload ++ 0 :: other) := by
  rcases payload with _ | ⟨first, _ | ⟨second, payload⟩⟩
  · exact ⟨rfl, nofun⟩
  · exact ⟨rfl, fun _ => rfl⟩
  · exact ⟨rfl, fun _ => rfl⟩

/-- A colon stands for itself before anything but ELSE and a remark's mark. -/
theorem elementFrom?_colon {bytes : List UInt8} (helse : bytes.head? ≠ some 0xA1)
    (hmark : bytes.take 2 ≠ [0x8F, 0xD9]) :
    elementFrom? 0x3A bytes = some (.verbatim [':'], bytes) := by
  unfold elementFrom?
  split <;> simp_all
  rfl

/-- What is found from a byte on is found in the bytes that are taken, as long as the same start of
an element follows them. -/
theorem elementFrom?_local {byte : UInt8} {rest : List UInt8} {element : Element}
    (hzero : byte ≠ 0x00) (h : elementFrom? byte bytes = some (element, rest)) :
    element.IsInner ∧ ∃ front, bytes = front ++ rest ∧
      ∀ other, SameStart rest other → elementFrom? byte (front ++ other) = some (element, other) := by
  by_cases hcolon : byte = 0x3A
  · subst hcolon
    by_cases helse : bytes.head? = some 0xA1
    · obtain ⟨tail, rfl⟩ := List.head?_eq_some_iff.mp helse
      obtain ⟨rfl, rfl⟩ := Prod.mk.inj (Option.some.inj h)
      refine ⟨trivial, [], rfl, fun other hstart => ?_⟩
      obtain ⟨more, rfl⟩ := List.head?_eq_some_iff.mp hstart.head
      rfl
    · by_cases hmark : bytes.take 2 = [0x8F, 0xD9]
      · obtain ⟨after, rfl⟩ : ∃ after, bytes = 0x8F :: 0xD9 :: after :=
          ⟨bytes.drop 2, by rw [← List.take_append_drop 2 bytes, hmark]; rfl⟩
        have hremark := elementAt_remark (String.ofList [Token.remarkMark]) after
        obtain ⟨front, rfl, hother⟩ := hremark.1 element rest h
        exact ⟨hremark.2 element _ h, 0x8F :: 0xD9 :: front, rfl,
          fun other hstart => hother other hstart.head⟩
      · rw [elementFrom?_colon helse hmark] at h
        obtain ⟨rfl, rfl⟩ := Prod.mk.inj (Option.some.inj h)
        refine ⟨trivial, [], rfl, fun other hstart => elementFrom?_colon ?_ fun htwo => ?_⟩
        · rwa [List.nil_append, hstart.head]
        · rw [List.nil_append] at htwo
          have hhead : bytes.head? = some 0x8F := by
            rw [← hstart.head, ← List.take_append_drop 2 other, htwo]
            rfl
          exact hmark (hstart.second hhead ▸ htwo)
  · obtain ⟨hlocal, hinner⟩ := elementAt_elementFrom hzero hcolon bytes
    obtain ⟨front, rfl, hother⟩ := hlocal element rest h
    exact ⟨hinner element rest h, front, rfl, fun other hstart => hother other hstart.head⟩

end Element

section Payload

variable {bytes rest : List UInt8} {elements : List Element}

theorem payload?_zero (rest : List UInt8) : payload? (0 :: rest) = some ([], rest) := by
  rw [payload?]
  rfl

theorem payload?_none {byte : UInt8} (h : elementFrom? byte bytes = none) :
    payload? (byte :: bytes) = none := by
  rw [payload?]
  split
  · rfl
  · rename_i hfinish
    cases h.symm.trans hfinish
  · rename_i hsome
    cases h.symm.trans hsome

theorem payload?_cons {byte : UInt8} {element : Element}
    (h : elementFrom? byte bytes = some (element, rest)) (hne : element ≠ .finish) :
    payload? (byte :: bytes) =
      (payload? rest).map fun (elements, after) => (element :: elements, after) := by
  rw [payload?]
  split
  · rename_i hnone
    cases h.symm.trans hnone
  · rename_i hfinish
    cases h.symm.trans hfinish
    exact absurd rfl hne
  · rename_i hsome
    cases h.symm.trans hsome
    rfl

/-- A payload is read by its own bytes: up to the zero byte that ends it, whatever follows. -/
theorem payload?_local (h : payload? bytes = some (elements, rest)) :
    ∃ payload, bytes = payload ++ 0 :: rest ∧ (∀ element ∈ elements, element.IsInner) ∧
      ∀ other, payload? (payload ++ 0 :: other) = some (elements, other) := by
  induction hlength : bytes.length using Nat.strongRecOn generalizing bytes elements with
  | _ length ih =>
      cases bytes with
      | nil =>
          rw [payload?] at h
          cases h
      | cons byte bytes =>
          by_cases hzero : byte = 0
          · subst hzero
            rw [payload?_zero] at h
            obtain ⟨rfl, rfl⟩ := Prod.mk.inj (Option.some.inj h)
            exact ⟨[], rfl, by simp, payload?_zero⟩
          · cases hfrom : elementFrom? byte bytes with
            | none =>
                rw [payload?_none hfrom] at h
                cases h
            | some found =>
                obtain ⟨element, after⟩ := found
                obtain ⟨hinner, front, rfl, hother⟩ := elementFrom?_local hzero hfrom
                rw [payload?_cons hfrom hinner.ne_finish] at h
                obtain ⟨⟨others, last⟩, hothers, heq⟩ := Option.map_eq_some_iff.mp h
                obtain ⟨rfl, rfl⟩ := Prod.mk.inj heq
                have hshort : after.length < length := by
                  rw [← hlength]
                  exact length_lt_of_element? hfrom
                obtain ⟨payload, rfl, hinners, hpayload⟩ := ih after.length hshort hothers rfl
                refine ⟨byte :: (front ++ payload), by simp,
                  List.forall_mem_cons.mpr ⟨hinner, hinners⟩, fun other => ?_⟩
                have hread := hother _ (sameStart_payload payload last other)
                rw [List.cons_append, List.append_assoc, payload?_cons hread hinner.ne_finish, hpayload]
                rfl

end Payload

section Record

variable {bytes rest : List UInt8} {record : Record}

/-- A complete record is read by its own bytes, whatever follows. Its first two bytes are a pointer
that is not zero, the next two its number, and its last one is the zero that ends the payload. -/
theorem record?_local (h : record? bytes = some (record, rest)) :
    ∃ low high first second payload,
      bytes = low :: high :: first :: second :: (payload ++ 0 :: rest) ∧
      word16 low high ≠ 0 ∧ record.number = word16 first second ∧
      (∀ element ∈ record.elements, element.IsInner) ∧
      ∀ other, record? (low :: high :: first :: second :: (payload ++ 0 :: other)) =
        some (record, other) := by
  unfold record? at h
  split at h
  · rename_i low high first second inner
    split at h
    · cases h
    · rename_i hpointer
      obtain ⟨⟨elements, after⟩, hpayload, heq⟩ := Option.map_eq_some_iff.mp h
      obtain ⟨rfl, rfl⟩ := Prod.mk.inj heq
      obtain ⟨payload, rfl, hinner, hother⟩ := payload?_local hpayload
      refine ⟨low, high, first, second, payload, rfl, hpointer, rfl, hinner, fun other => ?_⟩
      rw [record?, if_neg hpointer, hother]
      rfl
  · cases h

theorem take_record {low high first second : UInt8} {payload : List UInt8}
    (h : bytes = low :: high :: first :: second :: (payload ++ 0 :: rest)) :
    bytes.take (bytes.length - rest.length) = low :: high :: first :: second :: (payload ++ [0]) := by
  have happend : bytes = low :: high :: first :: second :: (payload ++ [0]) ++ rest := by simp [h]
  rw [happend, List.length_append, Nat.add_sub_cancel, List.take_left]

/-- The bytes of a complete record, from its pointer to the zero byte that ends its payload. They are
read as that record wherever they stand. -/
@[ext]
structure Chunk where
  bytes : List UInt8
  record : Record
  layout : ∃ low high first second payload,
    bytes = low :: high :: first :: second :: (payload ++ [0]) ∧ word16 low high ≠ 0 ∧
      record.number = word16 first second
  complete : ∀ rest, record? (bytes ++ rest) = some (record, rest)

theorem Chunk.isInner (chunk : Chunk) : ∀ element ∈ chunk.record.elements, element.IsInner := by
  obtain ⟨low, high, first, second, payload, -, -, -, hinner, -⟩ := record?_local (chunk.complete [])
  exact hinner

/-- The chunk at the start of bytes that start with a complete record. -/
def Chunk.ofRecord (h : record? bytes = some (record, rest)) : Chunk where
  bytes := bytes.take (bytes.length - rest.length)
  record := record
  layout := by
    obtain ⟨low, high, first, second, payload, hbytes, hpointer, hnumber, -, -⟩ := record?_local h
    exact ⟨low, high, first, second, payload, take_record hbytes, hpointer, hnumber⟩
  complete other := by
    obtain ⟨low, high, first, second, payload, hbytes, -, -, -, hother⟩ := record?_local h
    rw [take_record hbytes]
    simpa using hother other

theorem Chunk.ofRecord_append (h : record? bytes = some (record, rest)) :
    (Chunk.ofRecord h).bytes ++ rest = bytes := by
  obtain ⟨low, high, first, second, payload, hbytes, -⟩ := record?_local h
  calc (Chunk.ofRecord h).bytes ++ rest
      = low :: high :: first :: second :: (payload ++ [0]) ++ rest := by
        rw [← take_record hbytes]
        rfl
    _ = bytes := by simp [hbytes]

end Record

/-- The complete records at the start of the bytes, each with the bytes that it takes. -/
def chunks (bytes : List UInt8) : List Chunk :=
  match h : record? bytes with
  | none => []
  | some (_, rest) => Chunk.ofRecord h :: chunks rest
termination_by bytes.length
decreasing_by exact length_lt_of_record? h

section Chunks

variable {bytes rest : List UInt8}

theorem chunks_of_none (h : record? bytes = none) : chunks bytes = [] := by
  rw [chunks]
  split
  · rfl
  · rename_i hsome
    cases h.symm.trans hsome

theorem chunks_cons (chunk : Chunk) (rest : List UInt8) :
    chunks (chunk.bytes ++ rest) = chunk :: chunks rest := by
  rw [chunks]
  split
  · rename_i hnone
    cases (chunk.complete rest).symm.trans hnone
  · rename_i record after hsome
    obtain ⟨rfl, rfl⟩ := Prod.mk.inj (Option.some.inj ((chunk.complete rest).symm.trans hsome))
    have hbytes : (Chunk.ofRecord hsome).bytes = chunk.bytes :=
      List.append_cancel_right (Chunk.ofRecord_append hsome)
    exact congrArg (· :: chunks rest) (Chunk.ext hbytes rfl)

/-- The bytes are those of the complete records, and a rest that does not start with one. -/
theorem exists_rest (bytes : List UInt8) : ∃ rest,
    bytes = (chunks bytes).flatMap Chunk.bytes ++ rest ∧ record? rest = none := by
  fun_induction chunks bytes with
  | case1 bytes h => exact ⟨bytes, rfl, h⟩
  | case2 bytes record after h ih =>
      obtain ⟨rest, hafter, hrest⟩ := ih
      refine ⟨rest, ?_, hrest⟩
      rw [List.flatMap_cons, List.append_assoc, ← hafter]
      exact (Chunk.ofRecord_append h).symm

/-- There is only one way to cut the bytes into records. -/
theorem chunks_flatMap (pieces : List Chunk) (h : record? rest = none) :
    chunks (pieces.flatMap Chunk.bytes ++ rest) = pieces := by
  induction pieces with
  | nil => exact chunks_of_none h
  | cons chunk pieces ih => rw [List.flatMap_cons, List.append_assoc, chunks_cons, ih]

theorem records_eq (bytes : List UInt8) : records bytes = (chunks bytes).map Chunk.record := by
  fun_induction chunks bytes with
  | case1 bytes h =>
      rw [records]
      split
      · rfl
      · rename_i hsome
        cases h.symm.trans hsome
  | case2 bytes record after h ih =>
      rw [records]
      split
      · rename_i hnone
        cases h.symm.trans hnone
      · rename_i hsome
        obtain ⟨rfl, rfl⟩ := Prod.mk.inj (Option.some.inj (h.symm.trans hsome))
        rw [ih]
        rfl

end Chunks

section Truncation

variable {bytes rest : List UInt8}

/-- The records that lie within a number of bytes. -/
def within (n : Nat) : List Chunk → List Chunk
  | [] => []
  | chunk :: pieces =>
      if chunk.bytes.length ≤ n then chunk :: within (n - chunk.bytes.length) pieces else []

theorem within_prefix (n : Nat) (pieces : List Chunk) : within n pieces <+: pieces := by
  fun_induction within n pieces with
  | case1 => exact List.prefix_rfl
  | case2 n chunk pieces _ ih => exact List.prefix_cons_inj chunk |>.mpr ih
  | case3 => exact List.nil_prefix

/-- Records that take no more than the bytes lie within them. -/
theorem within_append {n : Nat} {before : List Chunk}
    (h : (before.flatMap Chunk.bytes).length ≤ n) (after : List Chunk) :
    within n (before ++ after) =
      before ++ within (n - (before.flatMap Chunk.bytes).length) after := by
  induction before generalizing n with
  | nil => rfl
  | cons chunk before ih =>
      rw [List.flatMap_cons, List.length_append] at h ⊢
      have hfirst : chunk.bytes.length ≤ n := by omega
      rw [List.cons_append, within, if_pos hfirst, ih (by omega), Nat.sub_sub, List.cons_append]

/-- Bytes that are cut off within a record hold no complete one. -/
theorem record?_take_of_lt (chunk : Chunk) {n : Nat} (h : n < chunk.bytes.length) :
    record? (chunk.bytes.take n) = none := by
  cases hrecord : record? (chunk.bytes.take n) with
  | none => rfl
  | some found =>
      obtain ⟨record, after⟩ := found
      have hwhole := chunk.complete []
      rw [List.append_nil, ← List.take_append_drop n chunk.bytes, ← Chunk.ofRecord_append hrecord,
        List.append_assoc, Chunk.complete] at hwhole
      -- the rest of the record would have to be empty
      have hrest := (Prod.mk.inj (Option.some.inj hwhole)).2
      have hlength := congrArg List.length hrest
      rw [List.length_append, List.length_drop, List.length_nil] at hlength
      omega

theorem record?_take_of_none (h : record? rest = none) (n : Nat) : record? (rest.take n) = none := by
  cases hrecord : record? (rest.take n) with
  | none => rfl
  | some found =>
      obtain ⟨record, after⟩ := found
      rw [← List.take_append_drop n rest, ← Chunk.ofRecord_append hrecord, List.append_assoc,
        Chunk.complete] at h
      cases h

/-- Of bytes that are cut off, the records that lie within them are left. -/
theorem chunks_take (bytes : List UInt8) (n : Nat) :
    chunks (bytes.take n) = within n (chunks bytes) := by
  obtain ⟨rest, hbytes, hrest⟩ := exists_rest bytes
  generalize chunks bytes = pieces at hbytes
  subst hbytes
  induction pieces generalizing n with
  | nil => exact chunks_of_none (record?_take_of_none hrest n)
  | cons chunk pieces ih =>
      rw [List.flatMap_cons, List.append_assoc, List.take_append, within]
      by_cases hfits : chunk.bytes.length ≤ n
      · rw [if_pos hfits, List.take_of_length_le hfits, chunks_cons, ih]
      · have hnone : n - chunk.bytes.length = 0 := by omega
        rw [if_neg hfits, hnone, List.take_zero, List.append_nil]
        exact chunks_of_none (record?_take_of_lt chunk (by omega))

end Truncation

section File

variable {bytes : List UInt8} {n : Nat}

/-- A file that starts with the mark of a stored program, protected or not. -/
def IsStored (bytes : List UInt8) : Prop := bytes.head? = some 0xFF ∨ bytes.head? = some 0xFE

/-- The bytes of a stored program after its mark, with the cipher undone. -/
def body (bytes : List UInt8) : List UInt8 :=
  if bytes.head? = some 0xFE then unprotect bytes.tail else bytes.tail

/-- The tokens of a stored program are those of its complete records, one after the other. -/
theorem tokens_stored (h : IsStored bytes) :
    tokens bytes =
      ((chunks (body bytes)).flatMap fun chunk => chunk.record.tokens) ++ [Token.endOfInput] := by
  have hrecords : ∀ inner, recordTokens inner =
      ((chunks inner).flatMap fun chunk => chunk.record.tokens) ++ [Token.endOfInput] := by
    intro inner
    rw [recordTokens, records_eq, List.flatMap_map]
  rw [← hrecords]
  unfold tokens Form.ofBytes body
  rcases h with h | h
  · simp only [h]
    rfl
  · simp only [h]
    rfl

theorem take_unprotect (bytes : List UInt8) (n : Nat) :
    unprotect (bytes.take n) = (unprotect bytes).take n := by
  refine List.ext_getElem? fun position => ?_
  unfold unprotect
  simp only [List.getElem?_mapIdx, List.getElem?_take]
  split <;> rfl

theorem head?_take_of_pos (hn : 1 ≤ n) (bytes : List UInt8) : (bytes.take n).head? = bytes.head? := by
  rw [List.head?_take, if_neg (by omega)]

theorem body_take (hn : 1 ≤ n) (bytes : List UInt8) :
    body (bytes.take n) = (body bytes).take (n - 1) := by
  unfold body
  rw [head?_take_of_pos hn, ← List.drop_one, List.drop_take, List.drop_one]
  split
  · exact take_unprotect _ _
  · rfl

/-- A stored program that is cut off is decoded to the tokens of the whole one up to the last complete
record, and a record whose last byte is not cut off is complete. -/
theorem tokens_take (h : IsStored bytes) (hn : 1 ≤ n) :
    (tokens (bytes.take n)).getLast? = some Token.endOfInput ∧
      (tokens bytes).getLast? = some Token.endOfInput ∧
      (tokens (bytes.take n)).dropLast <+: (tokens bytes).dropLast ∧
      (tokens bytes).dropLast = ((chunks (body bytes)).flatMap fun chunk => chunk.record.tokens) ∧
      ∀ before chunk after, chunks (body bytes) = before ++ chunk :: after →
        1 + ((before ++ [chunk]).flatMap Chunk.bytes).length ≤ n →
        ∃ more, tokens (bytes.take n) =
          (before.flatMap fun chunk => chunk.record.tokens) ++ chunk.record.tokens ++ more := by
  have htake : IsStored (bytes.take n) := by
    unfold IsStored
    rwa [head?_take_of_pos hn]
  have hwhole := tokens_stored h
  have hcut := tokens_stored htake
  rw [body_take hn, chunks_take] at hcut
  refine ⟨by simp [hcut], by simp [hwhole], ?_, by simp [hwhole], ?_⟩
  · rw [hcut, hwhole, List.dropLast_concat, List.dropLast_concat]
    obtain ⟨lost, hlost⟩ := within_prefix (n - 1) (chunks (body bytes))
    conv => rhs; rw [← hlost, List.flatMap_append]
    exact List.prefix_append _ _
  · intro before chunk after hchunks hlength
    have hsplit : chunks (body bytes) = (before ++ [chunk]) ++ after := by simp [hchunks]
    rw [hcut, hsplit, within_append (by omega), List.flatMap_append, List.flatMap_append,
      List.flatMap_singleton, List.append_assoc _ _ [_]]
    exact ⟨_, rfl⟩

/-- `10 A=256`, with a zero byte inside the constant. -/
def firstLine : Chunk where
  bytes := [0x01, 0x10, 0x0A, 0x00, 0x41, 0x3D, 0x1C, 0x00, 0x01, 0x00]
  record := ⟨10, [.verbatim ['A'], .verbatim ['='], decimalToken (signedText 256)]⟩
  layout := ⟨0x01, 0x10, 0x0A, 0x00, [0x41, 0x3D, 0x1C, 0x00, 0x01], rfl, by decide, rfl⟩
  complete rest := by
    have hletter : ∀ rest, elementFrom? 0x41 rest = some (.verbatim ['A'], rest) := fun _ => rfl
    have hequal : ∀ rest, elementFrom? 0x3D rest = some (.verbatim ['='], rest) := fun _ => rfl
    have hconstant : ∀ rest, elementFrom? 0x1C (0x00 :: 0x01 :: rest) =
        some (decimalToken (signedText 256), rest) := fun _ => rfl
    simp only [List.cons_append, List.nil_append, record?]
    rw [if_neg (by decide), payload?_cons (hletter _) nofun, payload?_cons (hequal _) nofun,
      payload?_cons (hconstant _) nofun, payload?_zero]
    rfl

/-- `20 B:'C`, with the colon and the word that are stored before the mark of a remark. -/
def secondLine : Chunk where
  bytes := [0x01, 0x10, 0x14, 0x00, 0x42, 0x3A, 0x8F, 0xD9, 0x43, 0x00]
  record := ⟨20, [.verbatim ['B'], .remark "'" ['C']]⟩
  layout := ⟨0x01, 0x10, 0x14, 0x00, [0x42, 0x3A, 0x8F, 0xD9, 0x43], rfl, by decide, rfl⟩
  complete rest := by
    have hletter : ∀ rest, elementFrom? 0x42 rest = some (.verbatim ['B'], rest) := fun _ => rfl
    have hremark : ∀ rest, elementFrom? 0x3A (0x8F :: 0xD9 :: 0x43 :: 0x00 :: rest) =
        some (.remark "'" ['C'], 0x00 :: rest) := fun _ => rfl
    simp only [List.cons_append, List.nil_append, record?]
    rw [if_neg (by decide), payload?_cons (hletter _) nofun, payload?_cons (hremark _) nofun,
      payload?_zero]
    rfl

/-- The two lines, cut off between the colon and the mark of the remark. -/
theorem tokens_take_withinRemark :
    let bytes := 0xFF :: ([firstLine, secondLine].flatMap Chunk.bytes ++ [0x00, 0x00])
    IsStored bytes ∧ 1 ≤ 17 ∧ chunks (body bytes) = [] ++ firstLine :: [secondLine] ∧
      (tokens (bytes.take 17)).dropLast <+: (tokens bytes).dropLast ∧
      ∃ more, tokens (bytes.take 17) = firstLine.record.tokens ++ more := by
  intro bytes
  have hchunks : chunks (body bytes) = [] ++ firstLine :: [secondLine] :=
    chunks_flatMap [firstLine, secondLine] (rfl : record? [0x00, 0x00] = none)
  have hstored : IsStored bytes := .inl rfl
  obtain ⟨-, -, hprefix, -, hkept⟩ := tokens_take (n := 17) hstored (by decide)
  exact ⟨hstored, by decide, hchunks, hprefix,
    hkept [] firstLine [secondLine] hchunks (by decide)⟩

end File

end LineBasic.Image
