import Threading.Proofs.Log.Buffer
import Threading.Proofs.Text.Numerals

/-!
# What a diagnostic line holds

Pieces that fit are written whole, so a line whose head fits is this head and a start of the
message. The start is the longest one that fits: a longer one would take more bytes than the
line has.
-/
namespace Threading.Log

variable {room : Nat} {p cs ds : List Char}

/-! ## Bytes -/

/-- The number of bytes a text takes in UTF-8. -/
def byteLength : List Char → Nat
  | [] => 0
  | c :: cs => c.utf8Size + byteLength cs

/-- Bytes are counted as in UTF-8. -/
theorem byteLength_eq (cs : List Char) : byteLength cs = (String.ofList cs).utf8ByteSize := by
  induction cs with
  | nil => rfl
  | cons c cs ih =>
    rw [byteLength, ih, String.ofList_cons, String.utf8ByteSize_append,
      String.utf8ByteSize_singleton]

/-- The longest start of a text that takes at most `room` bytes. -/
def fitting : (room : Nat) → List Char → List Char
  | _, [] => []
  | room, c :: cs => if c.utf8Size ≤ room then c :: fitting (room - c.utf8Size) cs else []

theorem fitting_of_le (h : byteLength cs ≤ room) : fitting room cs = cs := by
  induction cs generalizing room with
  | nil => rfl
  | cons c cs ih =>
    rw [byteLength] at h
    rw [fitting, if_pos (by omega), ih (by omega)]

theorem fitting_isPrefix (room : Nat) (cs : List Char) : fitting room cs <+: cs := by
  induction cs generalizing room with
  | nil => exact List.prefix_rfl
  | cons c cs ih =>
    rw [fitting]
    split
    next => exact List.cons_prefix_cons.2 ⟨rfl, ih _⟩
    next => exact List.nil_prefix

/-- Just those starts of a text fit that are starts of what is kept of it. -/
theorem prefix_fitting_iff (h : p <+: cs) : p <+: fitting room cs ↔ byteLength p ≤ room := by
  induction cs generalizing room p with
  | nil =>
    obtain rfl := List.prefix_nil.1 h
    simp [fitting, byteLength]
  | cons c cs ih =>
    cases p with
    | nil => simp [byteLength]
    | cons d p =>
      obtain ⟨rfl, hp⟩ := List.cons_prefix_cons.1 h
      rw [fitting, byteLength]
      split
      next hd =>
        rw [List.cons_prefix_cons, ih hp, and_iff_right rfl]
        omega
      next hd =>
        rw [List.prefix_nil]
        exact iff_of_false (List.cons_ne_nil _ _) (by omega)

theorem longestStart_fitting (room : Nat) (piece : String) :
    LongestStart room piece (String.ofList (fitting room piece.toList)) where
  isStart := by
    obtain ⟨rest, hrest⟩ := fitting_isPrefix room piece.toList
    refine ⟨String.ofList rest, ?_⟩
    rw [← String.ofList_append, hrest, String.ofList_toList]
  fits := by
    rw [← byteLength_eq]
    exact (prefix_fitting_iff (fitting_isPrefix room piece.toList)).1 List.prefix_rfl
  longest s rest heq hfits := by
    have hprefix : s.toList <+: piece.toList := ⟨rest.toList, by rw [heq, String.toList_append]⟩
    rw [← s.ofList_toList, ← byteLength_eq] at hfits
    obtain ⟨more, hmore⟩ := (prefix_fitting_iff hprefix).2 hfits
    rw [← hmore, String.ofList_append, String.utf8ByteSize_append, String.ofList_toList]
    exact Nat.le_add_right _ _

/-! ## Pieces -/

/-- What stands before the message. -/
def Line.head (l : Line) : String :=
  String.singleton l.priority.letter ++ "/" ++ l.tag ++ "(" ++ Text.signedDecimal l.tid.toInt ++
    "): "

/-- The message is the last piece, and the pieces before it make up the head. -/
theorem Line.exists_pieces (l : Line) :
    ∃ pieces, l.pieces = pieces ++ [l.message] ∧ String.join pieces = l.head := by
  by_cases hneg : l.tid < 0
  · have hint : l.tid.toInt < 0 := Int32.lt_iff_toInt_lt.1 hneg
    refine ⟨l.pieces.dropLast, by simp [pieces, hneg], ?_⟩
    simp [pieces, head, hneg, hint, Text.signedDecimal, String.append_assoc]
  · have hint : ¬ l.tid.toInt < 0 := fun hint => hneg (Int32.lt_iff_toInt_lt.2 hint)
    refine ⟨l.pieces.dropLast, by simp [pieces, hneg], ?_⟩
    simp [pieces, head, hneg, hint, Text.signedDecimal, String.append_assoc]

/-- A line whose head fits holds it and as much of the message as fits after it. -/
theorem Line.text_eq {l : Line} (h : l.head.utf8ByteSize ≤ lineCapacity) :
    l.text = l.head ++
      String.ofList (fitting (lineCapacity - l.head.utf8ByteSize) l.message.toList) := by
  obtain ⟨pieces, hpieces, hhead⟩ := l.exists_pieces
  obtain ⟨starts, hstarts, hwritten⟩ := LineBuffer.exists_writeAll? pieces "" (Nat.zero_le _)
  rw [hstarts.eq_of_size_le (hhead ▸ h), LineBuffer.ofText_empty, String.empty_append,
    hhead] at hwritten
  obtain ⟨start, hstart, hwrite⟩ := LineBuffer.exists_write? h l.message
  obtain rfl := hstart.unique (longestStart_fitting _ _)
  rw [text, hpieces, LineBuffer.writeAll?_concat, hwritten, Option.bind_some, hwrite,
    Option.map_some, Option.getD_some, LineBuffer.text_ofText]

/-! ## Short heads -/

theorem byteLength_of_isDigits (h : Text.IsDigits cs) : byteLength cs = cs.length := by
  have hsize : ∀ c ∈ cs, c.utf8Size = 1 := fun c hc => by
    have hle : c.toNat ≤ '9'.toNat :=
      UInt32.le_iff_toNat_le.1 (Char.le_def.1 (Text.isDigit_iff.1 (h.2 c hc)).2)
    exact Char.utf8Size_eq_one_iff.2
      (UInt32.le_iff_toNat_le.2 (Nat.le_trans hle (by decide : '9'.toNat ≤ 127)))
  clear h
  induction cs with
  | nil => rfl
  | cons c cs ih =>
    obtain ⟨hc, hcs⟩ := List.forall_mem_cons.1 hsize
    rw [byteLength, hc, ih hcs, List.length_cons, Nat.add_comm]

/-- The numeral of a thread id has a sign and ten digits at most. -/
theorem utf8ByteSize_signedDecimal_le (t : Tid) :
    (Text.signedDecimal t.toInt).utf8ByteSize ≤ 11 := by
  have hlow := t.le_toInt
  have hhigh := t.toInt_lt
  have hdecimal : (Text.decimal t.toInt.natAbs).utf8ByteSize ≤ 10 := by
    rw [Text.decimal, ← byteLength_eq, byteLength_of_isDigits (Text.isDigits_toDigits _),
      Nat.length_toDigits_le_iff (by decide) (by decide)]
    omega
  rw [Text.signedDecimal]
  split
  · rw [String.utf8ByteSize_append]
    have hsign : "-".utf8ByteSize = 1 := rfl
    omega
  · omega

/-- A head takes no more than 17 bytes beyond its tag. -/
theorem Line.utf8ByteSize_head_le (l : Line) : l.head.utf8ByteSize ≤ l.tag.utf8ByteSize + 17 := by
  have htid := utf8ByteSize_signedDecimal_le l.tid
  have hletter : (String.singleton l.priority.letter).utf8ByteSize = 1 := by
    cases l.priority <;> rfl
  have hslash : "/".utf8ByteSize = 1 := rfl
  have hopen : "(".utf8ByteSize = 1 := rfl
  have hclose : "): ".utf8ByteSize = 3 := rfl
  simp only [head, String.utf8ByteSize_append]
  omega

end Threading.Log
