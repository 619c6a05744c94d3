import PuppetInventory.Syntax.Position

/-!
Places behind characters, and the characters that stand at a place of a document.
-/

namespace PuppetInventory.Syntax

namespace Position

/-- The place behind characters that start here. -/
def past (position : Position) (chars : List Char) : Position :=
  chars.foldl after position

@[simp]
theorem past_nil (position : Position) : position.past [] = position :=
  rfl

@[simp]
theorem past_cons (position : Position) (c : Char) (chars : List Char) :
    position.past (c :: chars) = (position.after c).past chars :=
  rfl

@[simp]
theorem past_append (position : Position) (chars others : List Char) :
    position.past (chars ++ others) = (position.past chars).past others :=
  List.foldl_append

@[simp]
theorem after_offset (position : Position) (c : Char) :
    (position.after c).offset = position.offset + 1 :=
  rfl

@[simp]
theorem past_offset (position : Position) (chars : List Char) :
    (position.past chars).offset = position.offset + chars.length := by
  induction chars generalizing position with
  | nil => rfl
  | cons c chars ih =>
    rw [past_cons, ih, after_offset, List.length_cons]
    omega

theorem past_row {position : Position} {chars : List Char} (h : '\n' ∉ chars) :
    (position.past chars).row = position.row := by
  induction chars generalizing position with
  | nil => rfl
  | cons c chars ih =>
    rw [List.mem_cons, not_or] at h
    rw [past_cons, ih h.2, after, if_neg (Ne.symm h.1)]

end Position

namespace Input

theorem skip_append (chars rest : List Char) (position : Position) :
    (Input.mk (chars ++ rest) position).skip chars.length = ⟨rest, position.past chars⟩ := by
  induction chars generalizing position with
  | nil => rfl
  | cons c chars ih => exact ih (position.after c)

theorem takeWhile_append
    {passed : Char → Bool} {chars rest : List Char}
    (hchars : ∀ c ∈ chars, passed c = true) (hrest : ∀ c ∈ rest.head?, passed c = false) :
    (chars ++ rest).takeWhile passed = chars := by
  rw [List.takeWhile_append_of_pos hchars]
  cases rest with
  | nil => simp
  | cons c rest => simp [hrest c rfl]

theorem skipWhile_append
    {passed : Char → Bool} {chars rest : List Char} (position : Position)
    (hchars : ∀ c ∈ chars, passed c = true) (hrest : ∀ c ∈ rest.head?, passed c = false) :
    (Input.mk (chars ++ rest) position).skipWhile passed = ⟨rest, position.past chars⟩ := by
  rw [skipWhile, takeWhile_append hchars hrest, skip_append]

end Input

/-- Whether characters stand at a place of a document. -/
def Stands (document : Array Char) (position : Position) (chars : List Char) : Prop :=
  ∃ before rest, document.toList = before ++ (chars ++ rest) ∧ before.length = position.offset

namespace Stands

variable {document : Array Char} {position : Position} {chars others : List Char}

theorem left (h : Stands document position (chars ++ others)) : Stands document position chars := by
  obtain ⟨before, rest, hdocument, hbefore⟩ := h
  exact ⟨before, others ++ rest, by rw [hdocument, List.append_assoc], hbefore⟩

theorem right (h : Stands document position (chars ++ others)) :
    Stands document (position.past chars) others := by
  obtain ⟨before, rest, hdocument, hbefore⟩ := h
  refine ⟨before ++ chars, rest, ?_, ?_⟩
  · rw [hdocument, List.append_assoc, List.append_assoc]
  · rw [List.length_append, hbefore, Position.past_offset]

theorem span_chars (h : Stands document position chars) :
    (Span.mk position (position.past chars)).chars document = chars := by
  obtain ⟨before, rest, hdocument, hbefore⟩ := h
  rw [Span.chars, Array.toList_extract, hdocument, List.extract_eq_take_drop,
    Position.past_offset, ← hbefore, List.drop_left, Nat.add_sub_cancel_left, List.take_left]

end Stands

end PuppetInventory.Syntax
