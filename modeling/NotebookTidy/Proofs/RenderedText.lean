import NotebookTidy.Layout.Render
import NotebookTidy.Proofs.DocumentRoundTrip

/-!
# The pen writes what the recursion gives

The pen that writes a document knows how many brackets are open and one flag.  The text that it
leaves is the one that `Layout.render` gives by recursion on the value (`Layout.write_eq_render`):
the number of open brackets is the depth of the recursion, and at a closing bracket the flag is up
exactly if something stands between the brackets, whatever was written there.
-/

namespace NotebookTidy
namespace Layout

/-! ## Breaks -/

theorem flatten_replicate_eq_indentOf (indent : Text) (depth : Nat) :
    (List.replicate depth indent).flatten = indentOf indent depth := by
  induction depth with
  | zero => rfl
  | succ depth ih => rw [List.replicate_succ, List.flatten_cons, ih, indentOf]

/-- What comes before an item is a separator, unless it is the first, and a break. -/
theorem separate_eq_lineBreak (l : Layout) (first : Bool) (pen : Pen) :
    l.separate first pen =
      ((if first then [] else l.itemSeparator) ++ l.lineBreak pen.depth, pen) := by
  unfold separate itemSeparator lineBreak
  cases l.indent with
  | none =>
    cases first with
    | true => rfl
    | false => simp
  | some indent => simp [newLine, flatten_replicate_eq_indentOf]

/-- What comes before a closing bracket is a break, if a value has been completed. -/
theorem closeBracket_eq_lineBreak (l : Layout) (bracket : Char) (pen : Pen) :
    l.closeBracket bracket pen =
      ((if pen.hasValue then l.lineBreak (pen.depth - 1) else []) ++ [bracket],
        ⟨pen.depth - 1, pen.hasValue⟩) := by
  unfold closeBracket lineBreak
  cases l.indent with
  | none => simp
  | some indent => simp [newLine, flatten_replicate_eq_indentOf]

/-! ## Between brackets -/

/-- Items that are already text, with what stands before each, starting with the first one or
not. -/
def itemsText (l : Layout) (depth : Nat) (first : Bool) : List Text → Text
  | [] => []
  | item :: items =>
    (if first then [] else l.itemSeparator) ++ l.lineBreak depth ++ item ++
      itemsText l depth false items

theorem itemsText_false (l : Layout) (depth : Nat) (items : List Text) :
    l.itemsText depth false items =
      items.flatMap fun next => l.itemSeparator ++ l.lineBreak depth ++ next := by
  induction items with
  | nil => rfl
  | cons item items ih =>
    rw [itemsText, ih, List.flatMap_cons]
    rfl

/-- Between the brackets stand the items, and a break if there are any. -/
theorem enclose_eq (l : Layout) (depth : Nat) (opening closing : Char) (items : List Text) :
    l.enclose depth opening closing items =
      [opening] ++ l.itemsText depth true items ++
        ((if items.isEmpty then [] else l.lineBreak (depth - 1)) ++ [closing]) := by
  cases items with
  | nil => rfl
  | cons item items =>
    rw [enclose, itemsText, itemsText_false]
    simp

theorem isEmpty_renderItems (l : Layout) (depth : Nat) (items : List Json) :
    (l.renderItems depth items).isEmpty = items.isEmpty := by
  cases items <;> rfl

theorem isEmpty_renderMembers (l : Layout) (depth : Nat) (members : List (Text × Json)) :
    (l.renderMembers depth members).isEmpty = members.isEmpty := by
  cases members with
  | nil => rfl
  | cons member rest => rfl

/-! ## Values -/

theorem followedBy_snd (a b : Stroke) (pen : Pen) :
    (a.followedBy b pen).2 = (b (a pen).2).2 := rfl

/-- A pair of brackets around what has been written in between, with the flag up exactly if there is
something. -/
theorem brackets_eq (l : Layout) (opening closing : Char) {inner : Stroke} {pen : Pen}
    {items : List Text}
    (htext : (inner ⟨pen.depth + 1, false⟩).1 = l.itemsText (pen.depth + 1) true items)
    (hpen : (inner ⟨pen.depth + 1, false⟩).2 = ⟨pen.depth + 1, !items.isEmpty⟩) :
    (((openBracket opening).followedBy inner).followedBy (l.closeBracket closing) pen).1 =
        l.enclose (pen.depth + 1) opening closing items ∧
      (((openBracket opening).followedBy inner).followedBy (l.closeBracket closing) pen).2.depth =
        pen.depth := by
  have hopen : openBracket opening pen = ([opening], ⟨pen.depth + 1, false⟩) := rfl
  constructor
  · rw [followedBy_fst, followedBy_fst, followedBy_snd, hopen, htext, hpen,
      closeBracket_eq_lineBreak, enclose_eq]
    cases items <;> rfl
  · rw [followedBy_snd, followedBy_snd, hopen, hpen, closeBracket_eq_lineBreak]
    rfl

mutual

/-- **A written value has the text that the recursion gives** at the depth of the pen, and the pen
is at that depth again. -/
theorem writeValue_eq_render (l : Layout) :
    ∀ (v : Json) (pen : Pen),
      (l.writeValue v pen).1 = l.renderValue pen.depth v ∧
        (l.writeValue v pen).2.depth = pen.depth
  | .null, _ => ⟨rfl, rfl⟩
  | .boolean true, _ => ⟨rfl, rfl⟩
  | .boolean false, _ => ⟨rfl, rfl⟩
  | .number _, _ => ⟨rfl, rfl⟩
  | .string _, _ => ⟨rfl, rfl⟩
  | .array items, pen => by
    obtain ⟨htext, hpen⟩ := writeItems_eq_render l items true ⟨pen.depth + 1, false⟩
    rw [writeValue, renderValue]
    refine l.brackets_eq '[' ']' htext ?_
    rw [hpen, isEmpty_renderItems]
    rfl
  | .object members, pen => by
    obtain ⟨htext, hpen⟩ := writeMembers_eq_render l members true ⟨pen.depth + 1, false⟩
    rw [writeValue, renderValue]
    refine l.brackets_eq '{' '}' htext ?_
    rw [hpen, isEmpty_renderMembers]
    rfl

/-- Written items have the texts that the recursion gives, and the flag is up if there are any. -/
theorem writeItems_eq_render (l : Layout) :
    ∀ (items : List Json) (first : Bool) (pen : Pen),
      (l.writeItems first items pen).1 =
          l.itemsText pen.depth first (l.renderItems pen.depth items) ∧
        (l.writeItems first items pen).2 = ⟨pen.depth, pen.hasValue || !items.isEmpty⟩
  | [], _, pen => ⟨rfl, by simp [writeItems, Stroke.nothing, Stroke.text]⟩
  | v :: rest, first, pen => by
    obtain ⟨hvalue, hdepth⟩ := writeValue_eq_render l v pen
    obtain ⟨hrest, hpen⟩ := writeItems_eq_render l rest false ⟨pen.depth, true⟩
    have hend : (endValue (l.writeValue v pen).2) = ([], ⟨pen.depth, true⟩) := by
      rw [endValue, hdepth]
    constructor
    · rw [writeItems, followedBy_fst, followedBy_fst, followedBy_snd, followedBy_fst,
        followedBy_snd, separate_eq_lineBreak, hend, hvalue, hrest, renderItems, itemsText]
      simp
    · rw [writeItems, followedBy_snd, followedBy_snd, followedBy_snd, separate_eq_lineBreak, hend,
        hpen]
      simp

/-- Written members have the texts that the recursion gives, and the flag is up if there are any. -/
theorem writeMembers_eq_render (l : Layout) :
    ∀ (members : List (Text × Json)) (first : Bool) (pen : Pen),
      (l.writeMembers first members pen).1 =
          l.itemsText pen.depth first (l.renderMembers pen.depth members) ∧
        (l.writeMembers first members pen).2 = ⟨pen.depth, pen.hasValue || !members.isEmpty⟩
  | [], _, pen => ⟨rfl, by simp [writeMembers, Stroke.nothing, Stroke.text]⟩
  | (key, v) :: rest, first, pen => by
    obtain ⟨hvalue, hdepth⟩ := writeValue_eq_render l v pen
    obtain ⟨hrest, hpen⟩ := writeMembers_eq_render l rest false ⟨pen.depth, true⟩
    have hend : (endValue (l.writeValue v pen).2) = ([], ⟨pen.depth, true⟩) := by
      rw [endValue, hdepth]
    constructor
    · rw [writeMembers, followedBy_fst, followedBy_fst, followedBy_snd, followedBy_fst,
        followedBy_snd, followedBy_fst, followedBy_snd, separate_eq_lineBreak, Stroke.text_apply,
        hend, hvalue, hrest, renderMembers, itemsText]
      simp
    · rw [writeMembers, followedBy_snd, followedBy_snd, followedBy_snd, followedBy_snd,
        separate_eq_lineBreak, Stroke.text_apply, hend, hpen]
      simp

end

/-- **A document is written as it is rendered**: in one pass, the pen writes the text that is given
by recursion on the value. -/
theorem write_eq_render (l : Layout) (v : Json) : l.write v = l.render v := by
  rw [write, render, (l.writeValue_eq_render v ⟨0, false⟩).1]

end Layout
end NotebookTidy
