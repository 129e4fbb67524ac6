import Threading.Procfs.Lines

/-!
# The lines a reader delivers

A file is read through a buffer in portions of the kernel's choosing. What has been delivered,
together with what is still due from the buffer and the rest of the file, stays the same from one
read to the next, and when the file has ended nothing is due any more. So the portions do not
matter: the lines that are delivered are the short lines of the file, up to the one at which the
reader is told to stop.
-/
namespace Threading.Procfs

/-! ## The lines of a file -/

/-- What is left of the pieces between newlines if the last one is not counted when it is empty. -/
def dropEmptyLast (pieces : List Bytes) : List Bytes :=
  if pieces.getLast? = some [] then pieces.dropLast else pieces

/-- The lines of a file without their newlines, the last one also if it has none. -/
def linesOf (file : Bytes) : List Bytes := dropEmptyLast (file.splitOn newline)

/-- An empty line counts, and so does a last line without a newline, but not nothing at all. -/
example : linesOf [97, 10, 10, 98] = [[97], [], [98]] ∧ linesOf [97, 10] = [[97]] ∧ linesOf [] = [] := by
  decide

/-- The lines shorter than the buffer. -/
def short (lines : List Bytes) : List Bytes := lines.filter (·.length < bufferSize)

/-- The lines up to the first one at which to stop, that one included; `n` lines came before. -/
def untilStop (stop : Stop) : (n : Nat) → List Bytes → List Bytes
  | _, [] => []
  | n, line :: lines => if stop n line then [line] else line :: untilStop stop (n + 1) lines

theorem dropEmptyLast_cons {pieces : List Bytes} (h : pieces ≠ []) (line : Bytes) :
    dropEmptyLast (line :: pieces) = line :: dropEmptyLast pieces := by
  obtain ⟨piece, rest, rfl⟩ := List.exists_cons_of_ne_nil h
  simp only [dropEmptyLast, List.getLast?_cons_cons, List.dropLast_cons_cons]
  split <;> rfl

/-- A line that is too long leaves no trace, be it the last one or not. -/
theorem short_dropEmptyLast_cons {line : Bytes} (h : bufferSize ≤ line.length)
    (pieces : List Bytes) :
    short (dropEmptyLast (line :: pieces)) = short (dropEmptyLast pieces) := by
  have hlong : ¬ line.length < bufferSize := Nat.not_lt.2 h
  have hne : line ≠ [] := by
    rintro rfl
    exact absurd h (by decide)
  cases pieces with
  | nil => simp [dropEmptyLast, hne, short, hlong]
  | cons piece rest =>
    rw [dropEmptyLast_cons (List.cons_ne_nil piece rest)]
    simp [short, hlong]

/-! ## Taking complete lines off -/

variable {bs line : Bytes}

theorem splitOn_newline_cons (bs : Bytes) :
    (newline :: bs).splitOn newline = [] :: bs.splitOn newline := by
  simp [List.splitOn, List.splitOnP_cons_eq_if_modifyHead]

theorem splitOn_cons_of_ne {b : UInt8} (h : b ≠ newline) (bs : Bytes) :
    (b :: bs).splitOn newline = (bs.splitOn newline).modifyHead (b :: ·) := by
  simp [List.splitOn, List.splitOnP_cons_eq_if_modifyHead, h]

theorem splitOn_append_of_notMem (h : newline ∉ bs) (more : Bytes) :
    (bs ++ more).splitOn newline = (more.splitOn newline).modifyHead (bs ++ ·) := by
  induction bs with
  | nil =>
    rw [List.nil_append]
    cases more.splitOn newline <;> rfl
  | cons b bs ih =>
    obtain ⟨hb, hbs⟩ := List.ne_and_not_mem_of_not_mem_cons h
    rw [List.cons_append, splitOn_cons_of_ne hb.symm, ih hbs, List.modifyHead_modifyHead]
    rfl

/-- The complete lines are pieces between newlines, and the rest begins the next one. -/
theorem splitOn_takeLines (bs more : Bytes) :
    (bs ++ more).splitOn newline =
      (takeLines bs).1 ++ ((takeLines bs).2 ++ more).splitOn newline := by
  induction bs with
  | nil => rfl
  | cons b bs ih =>
    rw [List.cons_append, takeLines]
    generalize takeLines bs = taken at ih
    obtain ⟨lines, rest⟩ := taken
    by_cases hb : b = newline
    · simp [hb, splitOn_newline_cons, ih]
    · rw [splitOn_cons_of_ne hb, ih]
      cases lines with
      | nil => simp [hb, splitOn_cons_of_ne hb]
      | cons line lines => simp [hb]

theorem newline_notMem_takeLines (bs : Bytes) : newline ∉ (takeLines bs).2 := by
  induction bs with
  | nil => exact List.not_mem_nil
  | cons b bs ih =>
    rw [takeLines]
    generalize takeLines bs = taken at ih
    obtain ⟨lines, rest⟩ := taken
    by_cases hb : b = newline
    · simpa [hb] using ih
    · cases lines with
      | nil => simpa [hb, eq_comm] using ih
      | cons line lines => simpa [hb] using ih

/-- A complete line is followed by its newline. -/
theorem length_lt_of_mem_takeLines (h : line ∈ (takeLines bs).1) : line.length < bs.length := by
  induction bs generalizing line with
  | nil => exact absurd h List.not_mem_nil
  | cons b bs ih =>
    rw [takeLines] at h
    generalize takeLines bs = taken at ih h
    obtain ⟨lines, rest⟩ := taken
    rw [List.length_cons]
    by_cases hb : b = newline
    · simp only [hb, if_true, List.mem_cons] at h
      rcases h with rfl | h
      · exact Nat.succ_pos _
      · exact Nat.lt_succ_of_lt (ih h)
    · cases lines with
      | nil => simp [hb] at h
      | cons first lines =>
        simp only [hb, if_false, List.mem_cons] at h
        rcases h with rfl | h
        · exact Nat.succ_lt_succ (ih List.mem_cons_self)
        · exact Nat.lt_succ_of_lt (ih (List.mem_cons_of_mem _ h))

namespace LineReader

variable {stop : Stop} {r : LineReader} {pieces : List Bytes} {portion file : Bytes}

/-! ## One read -/

/-- The line in the buffer has not ended, and there is room for more of it. So the kernel is never
asked for nothing, which it would answer like the end of the file. -/
structure Open (r : LineReader) : Prop where
  room : r.buffer.length < bufferSize
  unended : newline ∉ r.buffer

/-- What a reader has delivered in the end if these are the pieces from the line in its buffer
on. -/
def prospect (stop : Stop) (r : LineReader) (pieces : List Bytes) : List Bytes :=
  r.delivered.reverse ++
    if r.stopped then []
    else untilStop stop r.delivered.length
      (short (dropEmptyLast (if r.skipping then pieces.tail else pieces)))

theorem prospect_of_stopped (h : r.stopped = true) (pieces : List Bytes) :
    r.prospect stop pieces = r.delivered.reverse := by
  simp [prospect, h]

theorem prospect_congr {r' : LineReader} (hdelivered : r'.delivered = r.delivered)
    (hstopped : r'.stopped = r.stopped) (hskipping : r'.skipping = r.skipping)
    (pieces : List Bytes) : r'.prospect stop pieces = r.prospect stop pieces := by
  rw [prospect, prospect, hdelivered, hstopped, hskipping]

/-- The end of a line delivers what was due first. -/
theorem prospect_endLine (hline : line.length < bufferSize) (h : pieces ≠ []) :
    (r.endLine stop line).prospect stop pieces = r.prospect stop (line :: pieces) := by
  cases hskipping : r.skipping with
  | true => simp [endLine, prospect, hskipping]
  | false =>
    cases hstopped : r.stopped with
    | true => simp [endLine, deliver, prospect, hskipping, hstopped]
    | false =>
      have hdue : short (dropEmptyLast (line :: pieces)) = line :: short (dropEmptyLast pieces) := by
        rw [dropEmptyLast_cons h]
        simp [short, hline]
      simp only [endLine, deliver, prospect, hskipping, hstopped, hdue, untilStop,
        Bool.false_eq_true, if_false, List.reverse_cons, List.length_cons, List.append_assoc,
        List.singleton_append]
      split <;> rfl

theorem prospect_endLines {lines : List Bytes} (hlines : ∀ line ∈ lines, line.length < bufferSize)
    (h : pieces ≠ []) :
    (lines.foldl (endLine stop) r).prospect stop pieces = r.prospect stop (lines ++ pieces) := by
  induction lines generalizing r with
  | nil => rfl
  | cons line lines ih =>
    obtain ⟨hline, hlines⟩ := List.forall_mem_cons.1 hlines
    have hne : lines ++ pieces ≠ [] := List.append_ne_nil_of_right_ne_nil lines h
    rw [List.foldl_cons, ih hlines, prospect_endLine hline hne, List.cons_append]

theorem open_feed (stop : Stop) (r : LineReader) (portion : Bytes) : (r.feed stop portion).Open := by
  simp only [feed]
  split
  next hroom => exact ⟨hroom, newline_notMem_takeLines _⟩
  next => exact ⟨Nat.succ_pos _, List.not_mem_nil⟩

/-- A read that brings no more than there is room for takes nothing from what is due and adds
nothing to it. -/
theorem prospect_feed (hroom : r.buffer.length + portion.length ≤ bufferSize) (file : Bytes) :
    (r.feed stop portion).prospect stop (((r.feed stop portion).buffer ++ file).splitOn newline) =
      r.prospect stop ((r.buffer ++ (portion ++ file)).splitOn newline) := by
  have hshort (line : Bytes) (h : line ∈ (takeLines (r.buffer ++ portion)).1) :
      line.length < bufferSize := by
    have hlt := length_lt_of_mem_takeLines h
    rw [List.length_append] at hlt
    omega
  rw [← List.append_assoc r.buffer, splitOn_takeLines (r.buffer ++ portion),
    ← prospect_endLines hshort (List.splitOn_ne_nil newline _)]
  simp only [feed]
  split
  next => exact prospect_congr rfl rfl rfl _
  next hfull =>
    -- the line in the buffer is too long already, so skipping it loses nothing that is due
    generalize (takeLines (r.buffer ++ portion)).1.foldl (endLine stop) r = ended
    have hopen := newline_notMem_takeLines (r.buffer ++ portion)
    generalize (takeLines (r.buffer ++ portion)).2 = rest at hfull hopen ⊢
    obtain ⟨piece, pieces, hpieces⟩ :=
      List.exists_cons_of_ne_nil (List.splitOn_ne_nil newline file)
    have hjoined : (rest ++ file).splitOn newline = (rest ++ piece) :: pieces := by
      rw [splitOn_append_of_notMem hopen, hpieces, List.modifyHead_cons]
    have hlong : bufferSize ≤ (rest ++ piece).length := by
      rw [List.length_append]
      omega
    simp only [List.nil_append, hpieces, hjoined, prospect, if_true, List.tail_cons]
    cases ended.skipping with
    | true => simp
    | false => simp [short_dropEmptyLast_cons hlong]

/-! ## A whole file -/

theorem delivered_finish (h : r.Open) (hstopped : r.stopped = false) :
    (r.finish stop).delivered.reverse = r.prospect stop (r.buffer.splitOn newline) := by
  have hpieces : r.buffer.splitOn newline = [r.buffer] := List.splitOn_eq_singleton h.unended
  rw [hpieces, prospect, finish]
  cases hskipping : r.skipping with
  | true => simp [dropEmptyLast, short, untilStop]
  | false =>
    by_cases hempty : r.buffer = []
    · simp [hempty, dropEmptyLast, short, untilStop]
    · simp [hempty, hstopped, dropEmptyLast, short, untilStop, h.room, deliver]

/-- A read asks for as many bytes as there is room for. -/
theorem Open.prospect_read (h : r.Open) {k : Nat} (hk : k ≤ max 1 (bufferSize - r.buffer.length))
    (file : Bytes) :
    (r.feed stop (file.take k)).prospect stop
        (((r.feed stop (file.take k)).buffer ++ file.drop k).splitOn newline) =
      r.prospect stop ((r.buffer ++ file).splitOn newline) := by
  have hroom := h.room
  have hlength : r.buffer.length + (file.take k).length ≤ bufferSize := by
    rw [List.length_take]
    omega
  rw [prospect_feed hlength, List.take_append_drop]

end LineReader

open LineReader

/-- Reading on delivers what is due, whatever the kernel answers. -/
theorem delivered_readLines (stop : Stop) (answers : List Read) {file : Bytes} {r : LineReader}
    (h : r.Open) :
    (readLines stop answers file r).delivered.reverse =
      r.prospect stop ((r.buffer ++ file).splitOn newline) := by
  fun_induction readLines stop answers file r with
  | case1 answers file r hstopped => rw [prospect_of_stopped hstopped]
  | case2 answers r hstopped =>
    rw [delivered_finish h (Bool.eq_false_iff.2 hstopped), List.append_nil]
  | case3 file r hstopped hfile answers ih => exact ih h
  | case4 file r hstopped hfile n answers k ih =>
    have hk : max 1 (min n (bufferSize - r.buffer.length)) ≤
        max 1 (bufferSize - r.buffer.length) := by omega
    rw [ih (open_feed stop r _)]
    exact h.prospect_read hk file
  | case5 file r hstopped hfile k ih =>
    rw [ih (open_feed stop r _)]
    exact h.prospect_read (Nat.le_refl _) file

/-- The lines delivered are those shorter than the buffer, in order, up to the one at which the
reader is told to stop. How the kernel portions the file out does not matter. -/
theorem forEachLine_eq_untilStop (stop : Stop) (answers : List Read) (file : Bytes) :
    forEachLine stop answers file = untilStop stop 0 (short (linesOf file)) :=
  delivered_readLines stop answers ⟨Nat.succ_pos _, List.not_mem_nil⟩

end Threading.Procfs
