import Mathlib.Algebra.Order.BigOperators.Group.List
import Mathlib.Algebra.Order.Group.Nat
import Mathlib.Algebra.Ring.Nat
import Mathlib.Data.Prod.Lex
import Mathlib.Tactic.Common

/-! # Ranges of text

Inline marks are ranges of a block's text in UTF-16 code units. `editBetween` finds the one edit between
two texts, `rebaseMarks` carries the marks across it and `setSpanMark` adds or removes a range; both end
in `normalize`, which sorts the marks and merges the ones that touch.

`marks_follow_text`: what `rebaseMarks` leaves is normalized and valid for the new text, every character
outside the edit carries the kinds it carried, and `setSpanMark` changes exactly the range it is given. -/

namespace Ducktape.Pages

open List Nat

/-- `MAX_BLOCK_LEN`: the store refuses a larger block record. -/
def maxBlockLen : Nat := 768 * 1024

def maxSpanMarksPerBlock : Nat := 4096

/-- A text a block can hold. -/
structure BlockText where
  chars : List Char
  fits : (chars.map Char.utf8Size).sum ≤ maxBlockLen

def u32Max : Nat := 2 ^ 32 - 1

/-- `char::len_utf16`. -/
def lenUtf16 (c : Char) : Nat := if c.val ≤ 0xFFFF then 1 else 2

/-- The code units of some characters. -/
def offsetOf (chars : List Char) : Nat := (chars.map lenUtf16).sum

def utf16Len (text : BlockText) : Nat := offsetOf text.chars

/-! ## Edits -/

/-- One replacement: `start..oldEnd` of the old text became `start..newEnd` of the new one. -/
structure TextEdit where
  start : Nat
  oldEnd : Nat
  newEnd : Nat

/-- The characters two texts share at the front. -/
def commonPrefix : List Char → List Char → List Char
  | a :: as, b :: bs => if a = b then a :: commonPrefix as bs else []
  | _, _ => []

/-- The characters two texts share at the back, behind what they share at the front. -/
def commonSuffix (old new : List Char) : List Char :=
  let front := (commonPrefix old new).length
  (commonPrefix (old.drop front).reverse (new.drop front).reverse).reverse

/-- What two texts do not share of `text`. -/
def changed (old new text : List Char) : List Char :=
  (text.drop (commonPrefix old new).length).take
    (text.length - (commonPrefix old new).length - (commonSuffix old new).length)

/-- The edit between two texts, `none` if they are equal. -/
def editBetween (old new : List Char) : Option TextEdit :=
  if old = new then none
  else
    let start := offsetOf (commonPrefix old new)
    some ⟨start, start + offsetOf (changed old new old), start + offsetOf (changed old new new)⟩

/-- A position behind the edit, carried along. -/
def shift (pos : Nat) (edit : TextEdit) : Nat := min (pos + edit.newEnd) u32Max - edit.oldEnd

def mapStart (pos : Nat) (edit : TextEdit) : Nat :=
  if pos < edit.start then pos else if pos ≥ edit.oldEnd then shift pos edit else edit.start

def mapEnd (pos : Nat) (edit : TextEdit) : Nat :=
  if pos ≤ edit.start then pos else if pos ≥ edit.oldEnd then shift pos edit else edit.newEnd

/-! ## Marks -/

inductive InlineMark
  | bold
  | italic
  | underline
  | strikethrough
  | code
  | mention (account : Nat)
  deriving DecidableEq

/-- The order of the kinds. -/
def InlineMark.rank : InlineMark → Nat
  | .bold => 0
  | .italic => 1
  | .underline => 2
  | .strikethrough => 3
  | .code => 4
  | .mention account => 5 + account

/-- A kind over the range `start..stop`. -/
structure SpanMark where
  start : Nat
  stop : Nat
  kind : InlineMark

/-- What marks are sorted by. -/
def SpanMark.key (mark : SpanMark) : Nat ×ₗ Nat ×ₗ Nat :=
  toLex (mark.kind.rank, toLex (mark.start, mark.stop))

/-- Merge a mark into the last one if that is of its kind and touches it; the last one comes first. -/
def mergeMark : List SpanMark → SpanMark → List SpanMark
  | last :: out, mark =>
    if last.kind = mark.kind ∧ mark.start ≤ last.stop then
      { last with stop := max last.stop mark.stop } :: out
    else mark :: last :: out
  | [], mark => [mark]

/-- Marks in order, with touching ones of a kind joined. -/
def normalize (marks : List SpanMark) : List SpanMark :=
  ((marks.mergeSort fun a b => a.key ≤ b.key).foldl mergeMark []).reverse

/-- Does a character end at `offset`, counting on from `reached`? -/
def boundaryFrom (offset reached : Nat) : List Char → Bool
  | [] => false
  | c :: chars =>
    if reached + lenUtf16 c = offset then true
    else if reached + lenUtf16 c > offset then false
    else boundaryFrom offset (reached + lenUtf16 c) chars

/-- Is the offset between two characters? -/
def boundary (text : BlockText) (offset : Nat) : Bool := offset = 0 || boundaryFrom offset 0 text.chars

def validRange (text : BlockText) (start stop : Nat) : Bool :=
  start < stop && stop ≤ utf16Len text && boundary text start && boundary text stop

/-- A mark across an edit. -/
def moveMark (edit : TextEdit) (newLen : Nat) (mark : SpanMark) : SpanMark :=
  let start := min (mapStart mark.start edit) newLen
  { mark with start := start, stop := max (min (mapEnd mark.stop edit) newLen) start }

def rebaseMarks (marks : List SpanMark) (edit : TextEdit) (newLen : Nat) : List SpanMark :=
  normalize ((marks.map (moveMark edit newLen)).filter fun mark => mark.start < mark.stop)

/-- A block's marks with its new text: there is nothing to carry across where there is no edit. -/
def retextMarks (old new : BlockText) (marks : List SpanMark) : List SpanMark :=
  match editBetween old.chars new.chars with
  | none => marks
  | some edit => rebaseMarks marks edit (utf16Len new)

/-- What is left of a mark when `start..stop` loses the kind. -/
def cutMark (start stop : Nat) (kind : InlineMark) (mark : SpanMark) : List SpanMark :=
  if mark.kind ≠ kind ∨ mark.stop ≤ start ∨ mark.start ≥ stop then [mark]
  else (if mark.start < start then [{ mark with stop := start }] else []) ++
    (if mark.stop > stop then [{ mark with start := stop }] else [])

inductive PageError
  | invalidTextRange
  | tooManySpanMarks

/-- The marks afterwards, also where there are too many of them. -/
def setSpanMark (marks : List SpanMark) (text : BlockText) (start stop : Nat) (kind : InlineMark)
    (active : Bool) : Except PageError Unit × List SpanMark :=
  if !validRange text start stop then (.error .invalidTextRange, marks)
  else
    let marks := normalize (if active then marks ++ [⟨start, stop, kind⟩]
      else marks.flatMap (cutMark start stop kind))
    (if marks.length > maxSpanMarksPerBlock then .error .tooManySpanMarks else .ok (), marks)

/-! ## Offsets -/

@[simp, grind =] theorem offsetOf_cons (c : Char) (chars : List Char) :
    offsetOf (c :: chars) = lenUtf16 c + offsetOf chars :=
  rfl

@[simp] theorem offsetOf_append (a b : List Char) : offsetOf (a ++ b) = offsetOf a + offsetOf b := by
  simp [offsetOf]

theorem lenUtf16_bounds (c : Char) : 0 < lenUtf16 c ∧ lenUtf16 c ≤ c.utf8Size := by
  unfold lenUtf16 Char.utf8Size at *
  split <;> grind

theorem utf16Len_le (text : BlockText) : utf16Len text ≤ maxBlockLen := by
  refine le_trans ?_ text.fits
  exact sum_le_sum fun c _ => (lenUtf16_bounds c).2

/-- Counting on from `reached`, the offset is between two characters or at an end of the text. -/
def Splits (offset reached : Nat) (text : List Char) : Prop :=
  offset = reached ∨ boundaryFrom offset reached text = true

theorem validRange_iff {text : BlockText} {start stop : Nat} : validRange text start stop = true ↔
    start < stop ∧ stop ≤ utf16Len text ∧ Splits start 0 text.chars ∧ Splits stop 0 text.chars := by
  simp [validRange, boundary, Splits, and_assoc]

section Splits

variable {offset reached : Nat} {a b : List Char}

theorem splits_cons {c : Char} : Splits offset reached (c :: a) ↔
    offset = reached ∨ Splits offset (reached + lenUtf16 c) a := by
  have past : boundaryFrom offset (reached + lenUtf16 c) a = true → reached + lenUtf16 c < offset := by
    fun_cases boundaryFrom offset (reached + lenUtf16 c) a <;> grind [lenUtf16_bounds]
  rw [Splits, Splits, boundaryFrom]
  grind

theorem splits_append : Splits offset reached (a ++ b) ↔
    Splits offset reached a ∨ Splits offset (reached + offsetOf a) b := by
  induction a generalizing reached with
  | nil => grind [Splits, boundaryFrom, offsetOf]
  | cons c a ih => rw [cons_append, splits_cons, splits_cons, ih, offsetOf_cons, or_assoc, add_assoc]

theorem Splits.bounds (splits : Splits offset reached a) : reached ≤ offset ∧ offset ≤ reached + offsetOf a := by
  induction a generalizing reached with
  | nil => grind [Splits, boundaryFrom]
  | cons c a ih => grind [splits_cons]

theorem Splits.le (splits : Splits offset 0 a) : offset ≤ offsetOf a := by
  simpa using splits.bounds.2

theorem splits_end (reached : Nat) (a : List Char) : Splits (reached + offsetOf a) reached a := by
  simpa using splits_append.mpr (.inr (.inl rfl) : _ ∨ Splits _ _ [])

theorem Splits.within (splits : Splits offset reached (a ++ b)) (within : offset ≤ reached + offsetOf a) :
    Splits offset reached a := by
  rcases splits_append.mp splits with here | behind
  · exact here
  · rw [le_antisymm within behind.bounds.1]
    exact splits_end reached a

theorem Splits.beyond (splits : Splits offset reached (a ++ b)) (beyond : reached + offsetOf a ≤ offset) :
    Splits offset (reached + offsetOf a) b := by
  rcases splits_append.mp splits with before | here
  · exact .inl (le_antisymm before.bounds.2 beyond)
  · exact here

theorem splits_shift {k : Nat} : Splits (offset + k) (reached + k) a ↔ Splits offset reached a := by
  induction a generalizing reached with
  | nil => simp [Splits, boundaryFrom]
  | cons c a ih => rw [splits_cons, splits_cons, add_right_comm, ih, add_right_cancel_iff]

end Splits

/-! ## Merging -/

/-- Some mark of the kind covers the code unit at `pos`. -/
def Carries (marks : List SpanMark) (kind : InlineMark) (pos : Nat) : Prop :=
  ∃ mark ∈ marks, mark.kind = kind ∧ mark.start ≤ pos ∧ pos < mark.stop

/-- Of a lower kind, or of the same one and ended before `b` starts. -/
def SpanMark.Before (a b : SpanMark) : Prop :=
  a.kind.rank < b.kind.rank ∨ a.kind = b.kind ∧ a.stop < b.start

/-- Sorted by kind; marks of one kind neither overlap nor touch. -/
def Normalized (marks : List SpanMark) : Prop := marks.Pairwise SpanMark.Before

/-- A range that is not empty, with both ends among the offsets `P`. -/
def SpanMark.Ends (P : Nat → Prop) (mark : SpanMark) : Prop :=
  mark.start < mark.stop ∧ P mark.start ∧ P mark.stop

theorem rank_injective : Function.Injective InlineMark.rank := by
  intro a b same
  cases a <;> cases b <;> simp [InlineMark.rank] at same ⊢ <;> omega

theorem key_le {a b : SpanMark} (le : a.key ≤ b.key) :
    a.kind.rank < b.kind.rank ∨ a.kind = b.kind ∧ a.start ≤ b.start := by
  simp only [SpanMark.key, Prod.Lex.toLex_le_toLex] at le
  rcases le with lt | ⟨same, lt | ⟨same', -⟩⟩
  · exact .inl lt
  · exact .inr ⟨rank_injective same, lt.le⟩
  · exact .inr ⟨rank_injective same, same'.le⟩

/-- What merging has made of the sorted marks `done`, the last one first. -/
structure Merged (done out : List SpanMark) : Prop where
  carries : ∀ kind pos, Carries out kind pos ↔ Carries done kind pos
  apart : out.Pairwise fun a b => b.Before a
  starts : ∀ mark ∈ out, ∃ a ∈ done, a.kind = mark.kind ∧ a.start = mark.start
  ends : ∀ P : Nat → Prop, (∀ a ∈ done, a.Ends P) → ∀ mark ∈ out, mark.Ends P

variable {kind : InlineMark} {mark : SpanMark} {pos : Nat} {marks : List SpanMark}

@[simp] theorem carries_cons :
    Carries (mark :: marks) kind pos ↔
      (mark.kind = kind ∧ mark.start ≤ pos ∧ pos < mark.stop) ∨ Carries marks kind pos := by
  simp [Carries]

@[simp] theorem carries_append {a b : List SpanMark} :
    Carries (a ++ b) kind pos ↔ Carries a kind pos ∨ Carries b kind pos := by
  simp [Carries, or_and_right, exists_or]

theorem Merged.push {done out : List SpanMark} (merged : Merged done out)
    (sorted : ∀ a ∈ done, a.key ≤ mark.key) : Merged (done ++ [mark]) (mergeMark out mark) := by
  obtain ⟨carries, apart, starts, ends⟩ := merged
  have order : ∀ m ∈ out, m.kind.rank < mark.kind.rank ∨ m.kind = mark.kind ∧ m.start ≤ mark.start := by
    intro m mem
    obtain ⟨a, done, kind, start⟩ := starts m mem
    simpa only [kind, start] using key_le (sorted a done)
  have pushed : ∀ kind pos, Carries (done ++ [mark]) kind pos ↔ Carries (mark :: out) kind pos := by
    intro kind pos
    rw [carries_cons, carries, or_comm]
    simp [Carries]
  have known : ∀ P, (∀ a ∈ done ++ [mark], a.Ends P) → mark.Ends P ∧ ∀ m ∈ out, m.Ends P :=
    fun P all => ⟨all mark (by simp), ends P fun a mem => all a (by simp [mem])⟩
  fun_cases mergeMark out mark with
  | case1 last out =>
    refine ⟨fun kind pos => ?_, ?_, ?_, ?_⟩
    · grind [carries_cons]
    · exact pairwise_cons.mpr (pairwise_cons.mp apart)
    · grind
    · intro P all m mem
      obtain ⟨⟨lt, -, stop⟩, olds⟩ := known P all
      obtain ⟨lt', start', stop'⟩ := olds last mem_cons_self
      rcases mem_cons.mp mem with rfl | mem
      · refine ⟨lt_max_of_lt_left lt', start', ?_⟩
        rcases max_choice last.stop mark.stop with same | same <;> simp only [same, stop, stop']
      · exact olds m (mem_cons_of_mem last mem)
  | case2 last out =>
    rename_i apart_of
    refine ⟨fun kind pos => (pushed kind pos).symm, ?_, ?_, ?_⟩
    · have ordered := order last mem_cons_self
      have last_before : last.Before mark :=
        ordered.imp_right fun ⟨same, _⟩ => ⟨same, not_le.mp fun le => apart_of ⟨same, le⟩⟩
      refine pairwise_cons.mpr ⟨forall_mem_cons.mpr ⟨last_before, fun m mem => ?_⟩, apart⟩
      rcases (pairwise_cons.mp apart).1 m mem with lt | ⟨same, lt⟩
      · exact .inl (ordered.elim lt.trans fun ⟨same, _⟩ => same ▸ lt)
      · exact ordered.imp (same ▸ ·) fun ⟨same', le⟩ => ⟨same.trans same', lt.trans_le le⟩
    · grind
    · exact fun P all => forall_mem_cons.mpr (known P all)
  | case3 =>
    refine ⟨fun kind pos => (pushed kind pos).symm, pairwise_singleton _ _, ?_, ?_⟩
    · grind
    · exact fun P all => forall_mem_cons.mpr (known P all)

theorem Merged.run {done out : List SpanMark} (rest : List SpanMark) (merged : Merged done out)
    (sorted : (done ++ rest).Pairwise fun a b => a.key ≤ b.key) :
    Merged (done ++ rest) (rest.foldl mergeMark out) := by
  induction rest generalizing done out with
  | nil => simpa using merged
  | cons mark rest ih =>
    have before : ∀ a ∈ done, a.key ≤ mark.key := fun a mem =>
      (pairwise_append.mp sorted).2.2 a mem mark mem_cons_self
    rw [append_cons] at sorted ⊢
    exact ih (merged.push before) sorted

theorem normalize_spec (marks : List SpanMark) : Normalized (normalize marks) ∧
    (∀ kind pos, Carries (normalize marks) kind pos ↔ Carries marks kind pos) ∧
    ∀ P : Nat → Prop, (∀ a ∈ marks, a.Ends P) → ∀ mark ∈ normalize marks, mark.Ends P := by
  have sorted := @List.pairwise_mergeSort _ (fun a b : SpanMark => decide (a.key ≤ b.key))
    (fun a b c => by simpa using le_trans) (fun a b => by simpa using le_total a.key b.key) marks
  have start : Merged [] [] := ⟨by simp, .nil, by simp, by simp⟩
  obtain ⟨carries, apart, -, ends⟩ := start.run (marks.mergeSort fun a b => a.key ≤ b.key)
    (sorted.imp fun le => by simpa using le)
  refine ⟨pairwise_reverse.mpr apart, ?_, ?_⟩
  · simpa [Carries, normalize] using carries
  · simpa [normalize] using ends

/-! ## Edits and ranges -/

/-- The texts share at the front exactly the beginnings of `commonPrefix`. -/
theorem commonPrefix_longest {front a b : List Char} : front <+: commonPrefix a b ↔ front <+: a ∧ front <+: b := by
  fun_induction commonPrefix a b generalizing front with
  | case1 as a bs ih =>
    cases front with
    | nil => simp
    | cons c front => rw [cons_prefix_cons, ih, cons_prefix_cons, cons_prefix_cons, and_and_left]
  | case2 as a b bs apart => cases front <;> grind
  | case3 a b ends => cases a <;> cases b <;> grind

theorem commonPrefix_begins (a b : List Char) : commonPrefix a b <+: a ∧ commonPrefix a b <+: b :=
  commonPrefix_longest.mp List.prefix_rfl

theorem parts {old new text : List Char} (front : commonPrefix old new <+: text)
    (back : commonSuffix old new <:+ text.drop (commonPrefix old new).length) :
    commonPrefix old new ++ changed old new text ++ commonSuffix old new = text := by
  unfold changed
  obtain ⟨rest, rfl⟩ := front
  rw [drop_left] at *
  obtain ⟨b, rfl⟩ := back
  simp

theorem parts_old (old new : List Char) :
    commonPrefix old new ++ changed old new old ++ commonSuffix old new = old :=
  parts (commonPrefix_begins old new).1
    (List.reverse_prefix.mp (by simpa [commonSuffix] using (commonPrefix_begins _ _).1))

theorem parts_new (old new : List Char) :
    commonPrefix old new ++ changed old new new ++ commonSuffix old new = new :=
  parts (commonPrefix_begins old new).2
    (List.reverse_prefix.mp (by simpa [commonSuffix] using (commonPrefix_begins _ _).2))

theorem Splits.moved {front gone came back : List Char} {edit : TextEdit}
    (splits : Splits pos 0 (front ++ gone ++ back)) (starts : edit.start = offsetOf front)
    (oldEnds : edit.oldEnd = offsetOf (front ++ gone))
    (newEnds : edit.newEnd = offsetOf (front ++ came)) (room : pos + edit.newEnd ≤ u32Max) :
    Splits (mapStart pos edit) 0 (front ++ came ++ back) ∧ Splits (mapEnd pos edit) 0 (front ++ came ++ back) := by
  have at_end : Splits (0 + edit.newEnd) 0 (front ++ came ++ back) :=
    splits_append.mpr (.inl (newEnds ▸ splits_end 0 _))
  have before {pos : Nat} (splits : Splits pos 0 front) : Splits pos 0 (front ++ came ++ back) :=
    splits_append.mpr (.inl (splits_append.mpr (.inl splits)))
  have low (le : pos ≤ edit.start) : Splits pos 0 (front ++ came ++ back) := by
    rw [append_assoc] at splits
    exact before (splits.within (by omega))
  have high (ge : pos ≥ edit.oldEnd) : Splits (shift pos edit) 0 (front ++ came ++ back) := by
    refine splits_append.mpr (.inr ?_)
    rw [← newEnds, ← @splits_shift _ _ _ edit.oldEnd, shift, min_eq_left room,
      Nat.sub_add_cancel (by omega), Nat.add_right_comm, splits_shift, oldEnds]
    exact splits.beyond (by omega)
  rw [zero_add] at at_end
  constructor
  · unfold mapStart
    split_ifs with lt ge
    exacts [low lt.le, high ge, before (by simpa [starts] using splits_end 0 front)]
  · unfold mapEnd
    split_ifs with le ge
    exacts [low le, high ge, at_end]

/-- A mark covers the unchanged code units it covered. -/
theorem moveMark_covers {edit : TextEdit} {rest : Nat}
    (ordered : edit.start ≤ edit.oldEnd ∧ edit.start ≤ edit.newEnd)
    (within : mark.stop ≤ edit.oldEnd + rest) (room : edit.oldEnd + edit.newEnd + rest ≤ u32Max)
    (kept : mark.start < mark.stop) :
    let moved := moveMark edit (edit.newEnd + rest) mark
    (∀ pos < edit.start, moved.start ≤ pos ∧ pos < moved.stop ↔ mark.start ≤ pos ∧ pos < mark.stop) ∧
      ∀ pos, moved.start ≤ edit.newEnd + pos ∧ edit.newEnd + pos < moved.stop ↔
        mark.start ≤ edit.oldEnd + pos ∧ edit.oldEnd + pos < mark.stop := by
  simp only [moveMark, mapStart, mapEnd, shift] at *
  constructor
  · split_ifs <;> omega
  · split_ifs <;> omega

theorem cutMark_covers {start stop : Nat} {other : InlineMark} (mark : SpanMark)
    (range : start < stop) : Carries (cutMark start stop kind mark) other pos ↔
      (mark.kind = other ∧ mark.start ≤ pos ∧ pos < mark.stop) ∧
        ¬(other = kind ∧ start ≤ pos ∧ pos < stop) := by
  simp only [cutMark]
  split_ifs <;> simp [Carries] <;> grind

theorem setSpanMark_covers {text : BlockText} {start stop : Nat}
    (range : validRange text start stop = true) (kind other : InlineMark) (pos : Nat) :
    (Carries (setSpanMark marks text start stop kind true).2 other pos ↔
      Carries marks other pos ∨ other = kind ∧ start ≤ pos ∧ pos < stop) ∧
    (Carries (setSpanMark marks text start stop kind false).2 other pos ↔
      Carries marks other pos ∧ ¬(other = kind ∧ start ≤ pos ∧ pos < stop)) := by
  have lt := (validRange_iff.mp range).1
  simp only [setSpanMark, range, Bool.not_true, Bool.false_eq_true, if_false, if_true,
    (normalize_spec _).2.1]
  constructor
  · simp only [Carries, mem_append, mem_singleton, or_and_right, exists_or, exists_eq_left, eq_comm]
  · induction marks with
    | nil => simp [Carries]
    | cons mark marks ih =>
      rw [flatMap_cons, carries_append, cutMark_covers mark lt, ih, carries_cons, or_and_right]

section Rebase

variable {old new : BlockText} {marks : List SpanMark} {edit : TextEdit}

theorem rebaseMarks_carries {newLen pos' : Nat}
    (covers : ∀ mark ∈ marks, (moveMark edit newLen mark).start ≤ pos' ∧
      pos' < (moveMark edit newLen mark).stop ↔ mark.start ≤ pos ∧ pos < mark.stop) :
    Carries (rebaseMarks marks edit newLen) kind pos' ↔ Carries marks kind pos := by
  rw [rebaseMarks, (normalize_spec _).2.1]
  constructor
  · rintro ⟨moved, left, same, within⟩
    obtain ⟨mark, mem, rfl⟩ := mem_map.mp (mem_filter.mp left).1
    exact ⟨mark, mem, same, (covers mark mem).mp within⟩
  · rintro ⟨mark, mem, same, within⟩
    have moved := (covers mark mem).mpr within
    refine ⟨_, mem_filter.mpr ⟨mem_map_of_mem mem, ?_⟩, same, moved⟩
    exact decide_eq_true (moved.1.trans_lt moved.2)

/-- The edit lies between what the texts share. -/
theorem editBetween_ends (edits : editBetween old.chars new.chars = some edit) :
    let front := commonPrefix old.chars new.chars
    let back := commonSuffix old.chars new.chars
    (edit.start = offsetOf front ∧
      edit.oldEnd = offsetOf (front ++ changed old.chars new.chars old.chars) ∧
      edit.newEnd = offsetOf (front ++ changed old.chars new.chars new.chars)) ∧
    utf16Len old = edit.oldEnd + offsetOf back ∧ utf16Len new = edit.newEnd + offsetOf back := by
  simp only [editBetween, Option.ite_none_left_eq_some, Option.some.injEq] at edits
  obtain ⟨-, rfl⟩ := edits
  have olds := congrArg offsetOf (parts_old old.chars new.chars)
  have news := congrArg offsetOf (parts_new old.chars new.chars)
  simp only [offsetOf_append] at olds news ⊢
  exact ⟨⟨trivial, trivial, trivial⟩, olds.symm, news.symm⟩

/-- What `rebaseMarks` keeps across the edit between two texts. -/
theorem rebaseMarks_spec (edits : editBetween old.chars new.chars = some edit)
    (valid : ∀ mark ∈ marks, validRange old mark.start mark.stop = true) :
    let after := rebaseMarks marks edit (utf16Len new)
    (Normalized after ∧ ∀ mark ∈ after, validRange new mark.start mark.stop = true) ∧
      ∀ kind, (∀ pos < edit.start, Carries after kind pos ↔ Carries marks kind pos) ∧
        ∀ pos, Carries after kind (edit.newEnd + pos) ↔ Carries marks kind (edit.oldEnd + pos) := by
  obtain ⟨⟨starts, oldEnds, newEnds⟩, oldLen, newLen⟩ := editBetween_ends edits
  have room := utf16Len_le old
  have room' := utf16Len_le new
  rw [maxBlockLen] at room
  rw [maxBlockLen] at room'
  have covers := fun mark mem => by
    obtain ⟨lt, le, -, -⟩ := validRange_iff.mp (valid mark mem)
    refine moveMark_covers ⟨?_, ?_⟩ (oldLen ▸ le) ?_ lt
    · simp [starts, oldEnds]
    · simp [starts, newEnds]
    · simp only [u32Max]
      omega
  refine ⟨⟨(normalize_spec _).1, fun mark mem => ?_⟩, fun kind => ⟨fun pos lt => ?_, fun pos => ?_⟩⟩
  · have moved := (normalize_spec _).2.2 (Splits · 0 new.chars) (fun a left => ?_) mark mem
    · exact validRange_iff.mpr ⟨moved.1, moved.2.2.le, moved.2⟩
    simp only [mem_filter, mem_map, decide_eq_true_eq] at left
    obtain ⟨⟨mark, mem, rfl⟩, lt⟩ := left
    obtain ⟨le, le', start, stop⟩ := validRange_iff.mp (valid mark mem)
    rw [← parts_old old.chars new.chars] at start stop
    replace start := (start.moved starts oldEnds newEnds (by rw [u32Max]; omega)).1
    replace stop := (stop.moved starts oldEnds newEnds (by rw [u32Max]; omega)).2
    rw [parts_new] at start stop
    refine ⟨lt, ?_⟩
    simp only [moveMark, utf16Len, min_eq_left start.le, min_eq_left stop.le]
    exact ⟨start, max_rec' (Splits · 0 new.chars) stop start⟩
  · rw [newLen]
    exact rebaseMarks_carries fun mark mem => (covers mark mem).1 pos lt
  · rw [newLen]
    exact rebaseMarks_carries fun mark mem => (covers mark mem).2 pos

end Rebase

/-- Across any edit of a block's text its marks stay normalized and valid and keep what they cover of the
characters before and behind the edit. Setting or clearing a mark over a range adds exactly the range to
the kind, or takes it away. -/
theorem marks_follow_text (old new : BlockText) (marks : List SpanMark) :
    let front := commonPrefix old.chars new.chars
    let back := commonSuffix old.chars new.chars
    (Normalized marks → (∀ mark ∈ marks, validRange old mark.start mark.stop = true) →
      Normalized (retextMarks old new marks) ∧
      (∀ mark ∈ retextMarks old new marks, validRange new mark.start mark.stop = true) ∧
      ∀ kind pos,
        (pos < offsetOf front → (Carries (retextMarks old new marks) kind pos ↔ Carries marks kind pos)) ∧
        (pos < offsetOf back →
          (Carries (retextMarks old new marks) kind (utf16Len new - offsetOf back + pos) ↔
            Carries marks kind (utf16Len old - offsetOf back + pos)))) ∧
    ∀ start stop kind, validRange old start stop = true → ∀ other pos,
      (Carries (setSpanMark marks old start stop kind true).2 other pos ↔
        Carries marks other pos ∨ other = kind ∧ start ≤ pos ∧ pos < stop) ∧
      (Carries (setSpanMark marks old start stop kind false).2 other pos ↔
        Carries marks other pos ∧ ¬(other = kind ∧ start ≤ pos ∧ pos < stop)) := by
  intro front back
  refine ⟨fun normalized valid => ?_, fun start stop kind range => setSpanMark_covers range kind⟩
  unfold retextMarks
  split
  · rename_i none
    have same : old.chars = new.chars := by
      by_contra differ
      simp [editBetween, differ] at none
    obtain ⟨chars, fits⟩ := old
    obtain rfl : chars = new.chars := same
    exact ⟨normalized, valid, fun kind pos => ⟨fun _ => Iff.rfl, fun _ => Iff.rfl⟩⟩
  · rename_i edits
    obtain ⟨⟨apart, ranges⟩, keeps⟩ := rebaseMarks_spec edits valid
    obtain ⟨⟨starts, -, -⟩, oldLen, newLen⟩ := editBetween_ends edits
    refine ⟨apart, ranges, fun kind pos => ⟨starts ▸ (keeps kind).1 pos, fun _ => ?_⟩⟩
    simpa only [oldLen, newLen, back, Nat.add_sub_cancel] using (keeps kind).2 pos

def ducks : BlockText := ⟨['a', '🦆', 'b', 'c'], by decide⟩

def moreDucks : BlockText := ⟨['+', '+', 'a', '🦆', 'b', 'c'], by decide⟩

/-- Two characters in front move the mark on the duck from `1..3` to `3..5`. -/
theorem marks_follow_text_ducks : Carries (retextMarks ducks moreDucks [⟨1, 3, .bold⟩]) .bold 3 ∧
    ¬Carries (retextMarks ducks moreDucks [⟨1, 3, .bold⟩]) .bold 2 := by
  obtain ⟨-, -, keeps⟩ := (marks_follow_text ducks moreDucks [⟨1, 3, .bold⟩]).1
    (List.pairwise_singleton _ _) (by decide)
  have on_duck := (keeps .bold 1).2 (by decide)
  have on_a := (keeps .bold 0).2 (by decide)
  exact ⟨on_duck.mpr ⟨_, List.mem_singleton_self _, by decide⟩, fun carries => by
    obtain ⟨mark, mem, -, le, -⟩ := on_a.mp carries
    obtain rfl := List.mem_singleton.mp mem
    exact absurd le (by decide)⟩

end Ducktape.Pages
