import Threading.Log.Line

/-!
# Pieces in a line

The buffer takes the longest start of each piece that fits. The starts of a text end where it can
be cut, so the search for the last cut finds the longest one, and what is in the buffer is a text
however its pieces are cut.
-/
namespace Threading.Log

variable {s piece start start' text : String} {pieces starts : List String} {i n room : Nat}

/-! ## Cuts -/

theorem lastCut_le (s : String) (n : Nat) : lastCut s n ≤ n := by
  induction n with
  | zero => exact Nat.le_refl 0
  | succ n ih =>
    rw [lastCut]
    split
    next => exact Nat.le_refl _
    next => exact Nat.le_succ_of_le ih

theorem isValid_lastCut (s : String) (n : Nat) : (String.Pos.Raw.mk (lastCut s n)).IsValid s := by
  induction n with
  | zero => exact String.Pos.Raw.isValid_zero
  | succ n ih =>
    rw [lastCut]
    split
    next h => exact String.Pos.Raw.isValid_eq_true_iff.1 h
    next => exact ih

/-- No cut at or before byte `n` lies behind the last one. -/
theorem le_lastCut (hi : (String.Pos.Raw.mk i).IsValid s) (hle : i ≤ n) : i ≤ lastCut s n := by
  induction n with
  | zero => exact hle
  | succ n ih =>
    rw [lastCut]
    split
    next => exact hle
    next h =>
      have hne : i ≠ n + 1 := fun heq => h (String.Pos.Raw.isValid_eq_true_iff.2 (heq ▸ hi))
      exact ih (by omega)

/-- There is no cut within a character of two bytes. -/
example : lastCut "aé" 2 = 1 := by decide

/-! ## Starts -/

/-- The longest start of a piece that takes at most `room` bytes. -/
structure LongestStart (room : Nat) (piece start : String) : Prop where
  isStart : ∃ rest, piece = start ++ rest
  fits : start.utf8ByteSize ≤ room
  longest : ∀ s rest, piece = s ++ rest → s.utf8ByteSize ≤ room →
    s.utf8ByteSize ≤ start.utf8ByteSize

theorem LongestStart.unique (h : LongestStart room piece start)
    (h' : LongestStart room piece start') : start = start' := by
  obtain ⟨rest, heq⟩ := h.isStart
  obtain ⟨rest', heq'⟩ := h'.isStart
  have hsize : start.utf8ByteSize = start'.utf8ByteSize :=
    Nat.le_antisymm (h'.longest _ _ heq h.fits) (h.longest _ _ heq' h'.fits)
  have hbytes : start.toByteArray ++ rest.toByteArray = start'.toByteArray ++ rest'.toByteArray := by
    rw [← String.toByteArray_append, ← heq, heq', String.toByteArray_append]
  exact String.toByteArray_inj.1 (ByteArray.append_inj_left hbytes hsize)

theorem longestStart_self (h : piece.utf8ByteSize ≤ room) : LongestStart room piece piece where
  isStart := ⟨"", String.append_empty.symm⟩
  fits := h
  longest s rest heq _ := by
    rw [heq, String.utf8ByteSize_append]
    exact Nat.le_add_right _ _

/-- The bytes up to the last cut are those of the longest start. -/
theorem exists_longestStart (room : Nat) (piece : String) : ∃ start, LongestStart room piece start ∧
    piece.toByteArray.extract 0 (lastCut piece (min piece.utf8ByteSize room)) =
      start.toByteArray := by
  obtain ⟨start, rest, heq, hcut⟩ := String.Pos.Raw.isValid_iff_exists_append.1
    (isValid_lastCut piece (min piece.utf8ByteSize room))
  have hsize : lastCut piece (min piece.utf8ByteSize room) = start.utf8ByteSize :=
    congrArg String.Pos.Raw.byteIdx hcut
  refine ⟨start, ⟨⟨rest, heq⟩, ?_, ?_⟩, ?_⟩
  · have hle := lastCut_le piece (min piece.utf8ByteSize room)
    omega
  · intro s rest' heq' hfits
    rw [← hsize]
    have hvalid : (String.Pos.Raw.mk s.utf8ByteSize).IsValid piece :=
      String.Pos.Raw.isValid_iff_exists_append.2 ⟨s, rest', heq', rfl⟩
    refine le_lastCut hvalid (Nat.le_min.2 ⟨?_, hfits⟩)
    rw [heq', String.utf8ByteSize_append]
    exact Nat.le_add_right _ _
  · rw [hsize, heq, String.toByteArray_append]
    exact ByteArray.extract_append_eq_left rfl

/-- Of each piece, the longest start that fits in the room that the earlier ones leave. -/
inductive Kept : (room : Nat) → (pieces starts : List String) → Prop
  | nil {room : Nat} : Kept room [] []
  | cons {room : Nat} {piece start : String} {pieces starts : List String} :
    LongestStart room piece start → Kept (room - start.utf8ByteSize) pieces starts →
      Kept room (piece :: pieces) (start :: starts)

theorem Kept.size_le (h : Kept room pieces starts) :
    (String.join starts).utf8ByteSize ≤ room := by
  induction h with
  | nil => exact Nat.zero_le _
  | cons hstart _ ih =>
    have hfits := hstart.fits
    rw [String.join_cons, String.utf8ByteSize_append]
    omega

/-- Pieces that fit together are kept whole. -/
theorem Kept.eq_of_size_le (h : Kept room pieces starts)
    (hfit : (String.join pieces).utf8ByteSize ≤ room) : starts = pieces := by
  induction h with
  | nil => rfl
  | cons hstart _ ih =>
    rw [String.join_cons, String.utf8ByteSize_append] at hfit
    obtain rfl := hstart.unique (longestStart_self (by omega))
    rw [ih (by omega)]

/-! ## The buffer -/

namespace LineBuffer

/-- The buffer that holds a text. -/
def ofText (text : String) : LineBuffer := ⟨text.toByteArray⟩

theorem fromUTF8?_ofText (text : String) :
    String.fromUTF8? (ofText text).bytes = some text := dif_pos text.isValidUTF8

@[simp] theorem text_ofText (text : String) : (ofText text).text = text := by
  rw [LineBuffer.text, fromUTF8?_ofText, Option.getD_some]

theorem ofText_empty : ofText "" = {} := rfl

theorem length_ofText (text : String) : (ofText text).length = text.utf8ByteSize := rfl

/-- A write that finds a text leaves a text, longer by what is kept of the piece. -/
theorem exists_write? (h : text.utf8ByteSize ≤ lineCapacity) (piece : String) :
    ∃ start, LongestStart (lineCapacity - text.utf8ByteSize) piece start ∧
      (ofText text).write? piece = some (ofText (text ++ start)) := by
  obtain ⟨start, hstart, hbytes⟩ :=
    exists_longestStart (lineCapacity - text.utf8ByteSize) piece
  have hcut := lastCut_le piece (min piece.utf8ByteSize (lineCapacity - text.utf8ByteSize))
  refine ⟨start, hstart, ?_⟩
  rw [write?, length_ofText, hbytes, if_pos]
  · rw [ofText, ofText, String.toByteArray_append]
  · rw [arraySize]
    exact ⟨h, by omega, by omega⟩

theorem exists_writeAll? (pieces : List String) (text : String)
    (h : text.utf8ByteSize ≤ lineCapacity) :
    ∃ starts, Kept (lineCapacity - text.utf8ByteSize) pieces starts ∧
      (ofText text).writeAll? pieces = some (ofText (text ++ String.join starts)) := by
  induction pieces generalizing text with
  | nil => exact ⟨[], .nil, by rw [String.join_nil, String.append_empty]; rfl⟩
  | cons piece pieces ih =>
    obtain ⟨start, hstart, hwrite⟩ := exists_write? h piece
    have hfits := hstart.fits
    have hsize := String.utf8ByteSize_append (s := text) (t := start)
    obtain ⟨starts, hstarts, hwrites⟩ := ih (text ++ start) (by omega)
    refine ⟨start :: starts, .cons hstart ?_, ?_⟩
    · rwa [Nat.sub_sub, ← hsize]
    · rw [writeAll?, List.foldlM_cons, hwrite, String.join_cons, ← String.append_assoc]
      exact hwrites

theorem writeAll?_concat (b : LineBuffer) (pieces : List String) (last : String) :
    b.writeAll? (pieces ++ [last]) = (b.writeAll? pieces).bind fun b => b.write? last := by
  simp [writeAll?, List.foldlM_append]

/-- Pieces written to a fresh buffer, whatever they are, are all taken. The bytes in use are the
UTF-8 form of the longest starts that fit, one after the other; they are all of the pieces if these
fit together, they never exceed the capacity, and a newline has room after them. -/
theorem writeAll?_keeps_starts (pieces : List String) : ∃ (b : LineBuffer) (starts : List String),
    ({} : LineBuffer).writeAll? pieces = some b ∧ Kept 1023 pieces starts ∧
      b.bytes.IsValidUTF8 ∧ String.fromUTF8? b.bytes = some b.text ∧
      b.text = String.join starts ∧ b.length ≤ 1023 ∧
      ((String.join pieces).utf8ByteSize ≤ 1023 → b.text = String.join pieces) ∧
      b.terminated? = some (b.text ++ "\n").toByteArray := by
  obtain ⟨starts, hstarts, hwrites⟩ := exists_writeAll? pieces "" (Nat.zero_le _)
  rw [ofText_empty, String.empty_append] at hwrites
  have hlength : (ofText (String.join starts)).length ≤ 1023 := hstarts.size_le
  have hroom : (ofText (String.join starts)).length < arraySize := Nat.lt_succ_of_le hlength
  have htext := text_ofText (String.join starts)
  refine ⟨ofText (String.join starts), starts, hwrites, hstarts, String.isValidUTF8 _, ?_, htext,
    hlength, ?_, ?_⟩
  · rw [htext, fromUTF8?_ofText]
  · intro hfit
    rw [htext, hstarts.eq_of_size_le hfit]
  · rw [terminated?, if_pos hroom, htext, String.toByteArray_append]
    exact congrArg some ByteArray.append_toByteArray_singleton.symm

/-- Pieces of one, two and four bytes a character that fit together. -/
theorem writeAll?_keeps_starts_whole :
    (String.join ["a", "é", "", "😀"]).utf8ByteSize ≤ 1023 ∧
      ∃ b, ({} : LineBuffer).writeAll? ["a", "é", "", "😀"] = some b ∧ b.text = "aé😀" ∧
        b.length ≤ 1023 ∧ b.terminated? = some "aé😀\n".toByteArray := by
  have hfit : (String.join ["a", "é", "", "😀"]).utf8ByteSize ≤ 1023 := by decide
  obtain ⟨b, starts, hwrites, -, -, -, -, hlength, hwhole, hended⟩ :=
    writeAll?_keeps_starts ["a", "é", "", "😀"]
  have htext : b.text = "aé😀" := hwhole hfit
  rw [htext] at hended
  exact ⟨hfit, b, hwrites, htext, hlength, hended⟩

end LineBuffer
end Threading.Log
