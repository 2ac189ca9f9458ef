import Mathlib.Data.List.Forall2

/-! Reading items off the front of a stream until no further one is found.
An item is recognised by the symbols of its own frame, whatever follows them. So what was read
stays read when the stream grows, and only the unread tail has to be looked at again.
-/

namespace Foundations.IncrementalParsing

variable {α β : Type}

/-- A function that reads one item, with the frames that it recognises. -/
structure ItemParser (α β : Type) where
  next : List β → Option (α × List β)
  IsFrame : List β → α → Prop
  nonempty : ∀ {frame item}, IsFrame frame item → frame ≠ []
  next_iff
    : ∀ {symbols item rest},
        next symbols = some (item, rest) ↔ ∃ frame, IsFrame frame item ∧ symbols = frame ++ rest

namespace ItemParser

variable (parser : ItemParser α β)

theorem next_frame {frame : List β} {item : α} (framed : parser.IsFrame frame item)
    (rest : List β)
    : parser.next (frame ++ rest) = some (item, rest) :=
  parser.next_iff.mpr ⟨frame, framed, rfl⟩

theorem length_of_next {symbols rest : List β} {item : α}
    (found : parser.next symbols = some (item, rest))
    : rest.length < symbols.length := by
  obtain ⟨frame, framed, rfl⟩ := parser.next_iff.mp found
  have positive := List.length_pos_of_ne_nil (parser.nonempty framed)
  rw [List.length_append]
  omega

/-- All items, and the tail in which no further one is found. -/
def read (symbols : List β) : List α × List β :=
  match _ : parser.next symbols with
  | none => ([], symbols)
  | some (item, rest) => (item :: (read rest).1, (read rest).2)
termination_by symbols.length
decreasing_by all_goals exact parser.length_of_next ‹_›

theorem read_stuck {symbols : List β} (stuck : parser.next symbols = none)
    : parser.read symbols = ([], symbols) := by
  rw [read]
  split
  · rfl
  case h_2 found => cases stuck.symm.trans found

theorem read_next {symbols rest : List β} {item : α}
    (found : parser.next symbols = some (item, rest))
    : parser.read symbols = (item :: (parser.read rest).1, (parser.read rest).2) := by
  rw [read]
  split
  case h_1 stuck => cases stuck.symm.trans found
  case h_2 other =>
    obtain ⟨rfl, rfl⟩ := Prod.mk.inj (Option.some.inj (other.symm.trans found))
    rfl

/-- Frames in front of a stream are read first, by induction on them. -/
theorem read_frames {frames : List (List β)} {items : List α}
    (framed : List.Forall₂ parser.IsFrame frames items) (symbols : List β)
    : parser.read (frames.flatten ++ symbols)
      = (items ++ (parser.read symbols).1, (parser.read symbols).2) := by
  induction framed with
  | nil => rfl
  | cons first _ ih =>
      rw [List.flatten_cons, List.append_assoc,
        parser.read_next (parser.next_frame first _), ih, List.cons_append]

/-- The stream is the frames of what was read and the tail, by induction on what is read. -/
theorem exists_frames (symbols : List β)
    : ∃ frames,
        List.Forall₂ parser.IsFrame frames (parser.read symbols).1
        ∧ symbols = frames.flatten ++ (parser.read symbols).2
        ∧ parser.next (parser.read symbols).2 = none := by
  induction symbols using ItemParser.read.induct parser with
  | case1 symbols stuck =>
      rw [parser.read_stuck stuck]
      exact ⟨[], .nil, rfl, stuck⟩
  | case2 symbols item rest found ih =>
      obtain ⟨frames, framed, cut, stuck⟩ := ih
      obtain ⟨frame, first, split⟩ := parser.next_iff.mp found
      rw [parser.read_next found]
      refine ⟨frame :: frames, .cons first framed, ?_, stuck⟩
      rw [List.flatten_cons, List.append_assoc, ← cut, split]

/-- There is only one way to cut a stream into frames and a tail without one. -/
theorem read_eq {frames : List (List β)} {items : List α}
    (framed : List.Forall₂ parser.IsFrame frames items) {tail : List β}
    (stuck : parser.next tail = none)
    : parser.read (frames.flatten ++ tail) = (items, tail) := by
  rw [parser.read_frames framed, parser.read_stuck stuck, List.append_nil]

/-- The same items in front of a stream have the same frames, by induction on the items. -/
theorem frames_unique {frames others : List (List β)} {items : List α} {tail rest : List β}
    (framed : List.Forall₂ parser.IsFrame frames items)
    (othersFramed : List.Forall₂ parser.IsFrame others items)
    (same : frames.flatten ++ tail = others.flatten ++ rest)
    : frames = others := by
  induction framed generalizing others with
  | nil =>
      cases othersFramed
      rfl
  | @cons frame item frames items first _ ih =>
      cases othersFramed with
      | @cons other _ others _ second othersFramed =>
          simp only [List.flatten_cons, List.append_assoc] at same
          -- both frames are read off one stream, so the same symbols are behind them
          have found := parser.next_frame first (frames.flatten ++ tail)
          rw [same, parser.next_frame second, Option.some.injEq, Prod.mk.injEq] at found
          obtain ⟨-, behind⟩ := found
          rw [← behind] at same
          rw [List.append_cancel_right same, ih othersFramed behind.symm]

/-- Reading goes on behind what was read when the stream grows. -/
theorem read_append (symbols more : List β)
    : parser.read (symbols ++ more)
      = ((parser.read symbols).1 ++ (parser.read ((parser.read symbols).2 ++ more)).1,
          (parser.read ((parser.read symbols).2 ++ more)).2) := by
  obtain ⟨frames, framed, cut, -⟩ := parser.exists_frames symbols
  have grown : symbols ++ more = frames.flatten ++ ((parser.read symbols).2 ++ more) := by
    rw [← List.append_assoc, ← cut]
  rw [grown, parser.read_frames framed]

/-- What was read stays read. -/
theorem read_grows {symbols longer : List β} (grows : symbols <+: longer)
    : (parser.read symbols).1 <+: (parser.read longer).1 := by
  obtain ⟨more, rfl⟩ := grows
  rw [parser.read_append]
  exact List.prefix_append _ _

end ItemParser
end Foundations.IncrementalParsing
