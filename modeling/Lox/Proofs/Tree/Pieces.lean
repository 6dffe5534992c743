set_option autoImplicit false

namespace Lox

inductive Piece where
  | plain (c : Char)
  | quoted (text : List Char)
  | group (inside : List Piece)

namespace Piece

mutual

@[simp] def write : Piece → List Char
  | .plain c => [c]
  | .quoted text => '"' :: (text ++ ['"'])
  | .group inside => '(' :: (writeAll inside ++ [')'])

@[simp] def writeAll : List Piece → List Char
  | [] => []
  | p :: ps => p.write ++ writeAll ps

end

mutual

@[simp] def Clear : Piece → Prop
  | .plain c => c ≠ '(' ∧ c ≠ ')' ∧ c ≠ '"'
  | .quoted text => '"' ∉ text
  | .group inside => ClearAll inside

@[simp] def ClearAll : List Piece → Prop
  | [] => True
  | p :: ps => p.Clear ∧ ClearAll ps

end

theorem clearAll_iff {ps : List Piece} : ClearAll ps ↔ ∀ p ∈ ps, p.Clear := by
  induction ps with
  | nil => simp
  | cons p ps ih => simp [ih]

@[simp] theorem writeAll_append (ps qs : List Piece) : writeAll (ps ++ qs) = writeAll ps ++ writeAll qs := by
  induction ps with
  | nil => rfl
  | cons p ps ih => simp [ih]

@[simp] theorem writeAll_intercalate (sep : List Piece) (items : List (List Piece)) :
    writeAll (sep.intercalate items) = (writeAll sep).intercalate (items.map writeAll) := by
  induction items with
  | nil => rfl
  | cons item items ih =>
    cases items with
    | nil => simp
    | cons next items => simpa [List.intercalate_cons_cons] using ih

theorem append_cons_inj {α : Type} {c : α} {xs ys us vs : List α} (without : c ∉ xs) (without' : c ∉ ys)
    (h : xs ++ c :: us = ys ++ c :: vs) : xs = ys ∧ us = vs := by
  induction xs generalizing ys with
  | nil =>
    cases ys with
    | nil => simpa using h
    | cons y ys => exact absurd ((List.cons.inj h).1 ▸ List.mem_cons_self) without'
  | cons x xs ih =>
    cases ys with
    | nil => exact absurd ((List.cons.inj h).1 ▸ List.mem_cons_self) without
    | cons y ys =>
      simp only [List.cons_append, List.cons.injEq, List.mem_cons, not_or] at *
      obtain ⟨rfl, rfl⟩ := ih without.2 without'.2 h.2
      exact ⟨⟨h.1, rfl⟩, rfl⟩

def Closes (rest : List Char) : Prop := ∀ c ∈ rest.head?, c = ')'

theorem Clear.not_closes {p : Piece} (clear : p.Clear) (rest : List Char) : ¬ Closes (p.write ++ rest) := by
  cases p <;> simp_all [Closes]

mutual

theorem write_inj {p q : Piece} (clear : p.Clear) (clear' : q.Clear) {u v : List Char}
    (h : p.write ++ u = q.write ++ v) : p = q ∧ u = v := by
  -- the first character tells what the piece is
  cases p with
  | plain c =>
    cases q with
    | plain d => simpa using h
    | quoted text => exact absurd (List.cons.inj h).1 clear.2.2
    | group inside => exact absurd (List.cons.inj h).1 clear.1
  | quoted text =>
    cases q with
    | plain d => exact absurd (List.cons.inj h).1.symm clear'.2.2
    | quoted text' =>
      have inner : text ++ '"' :: u = text' ++ '"' :: v := by simpa using h
      obtain ⟨rfl, rfl⟩ := append_cons_inj clear clear' inner
      exact ⟨rfl, rfl⟩
    | group inside => simp at h
  | group inside =>
    cases q with
    | plain d => exact absurd (List.cons.inj h).1.symm clear'.1
    | quoted text => simp at h
    | group inside' =>
      have inner : writeAll inside ++ ')' :: u = writeAll inside' ++ ')' :: v := by simpa using h
      obtain ⟨rfl, rest⟩ := writeAll_inj clear clear' (by simp [Closes]) (by simp [Closes]) inner
      exact ⟨rfl, (List.cons.inj rest).2⟩

theorem writeAll_inj {ps qs : List Piece} (clear : ClearAll ps) (clear' : ClearAll qs) {u v : List Char}
    (closes : Closes u) (closes' : Closes v) (h : writeAll ps ++ u = writeAll qs ++ v) : ps = qs ∧ u = v := by
  cases ps with
  | nil =>
    cases qs with
    | nil => exact ⟨rfl, h⟩
    | cons q qs =>
      simp only [writeAll, List.nil_append, List.append_assoc] at h
      exact absurd (h ▸ closes) (clear'.1.not_closes _)
  | cons p ps =>
    cases qs with
    | nil =>
      simp only [writeAll, List.nil_append, List.append_assoc] at h
      exact absurd (h ▸ closes') (clear.1.not_closes _)
    | cons q qs =>
      simp only [writeAll, List.append_assoc] at h
      obtain ⟨rfl, rest⟩ := write_inj clear.1 clear'.1 h
      obtain ⟨rfl, rfl⟩ := writeAll_inj clear.2 clear'.2 closes closes' rest
      exact ⟨rfl, rfl⟩

end

theorem eq_of_writeAll_eq {ps qs : List Piece} (clear : ClearAll ps) (clear' : ClearAll qs)
    (h : writeAll ps = writeAll qs) : ps = qs :=
  (writeAll_inj clear clear' (u := []) (v := []) (by simp [Closes]) (by simp [Closes]) (by simp [h])).1

theorem intercalate_inj {α : Type} {c : α} {sep : List α} {xs ys : List (List α)}
    (without : ∀ x ∈ xs, x ≠ [] ∧ c ∉ x) (without' : ∀ y ∈ ys, y ≠ [] ∧ c ∉ y)
    (h : (c :: sep).intercalate xs = (c :: sep).intercalate ys) : xs = ys := by
  induction xs generalizing ys with
  | nil =>
    cases ys with
    | nil => rfl
    | cons y ys => cases ys <;> simp_all [List.intercalate_cons_cons]
  | cons x xs ih =>
    have absent := without x List.mem_cons_self
    cases ys with
    | nil => cases xs <;> simp_all [List.intercalate_cons_cons]
    | cons y ys =>
      have absent' := without' y List.mem_cons_self
      cases xs with
      | nil =>
        cases ys with
        | nil => simpa using h
        | cons y' ys =>
          rw [List.intercalate_singleton] at h
          exact absurd (by simp [h, List.intercalate_cons_cons]) absent.2
      | cons x' xs =>
        cases ys with
        | nil =>
          rw [List.intercalate_singleton] at h
          exact absurd (by simp [← h, List.intercalate_cons_cons]) absent'.2
        | cons y' ys =>
          simp only [List.intercalate_cons_cons, List.append_assoc, List.cons_append] at h
          obtain ⟨rfl, rest⟩ := append_cons_inj absent.2 absent'.2 h
          rw [ih (fun x member => without x (List.mem_cons_of_mem _ member))
            (fun y member => without' y (List.mem_cons_of_mem _ member)) (by simpa using rest)]

theorem mem_intercalate {α : Type} {x : α} {sep : List α} {items : List (List α)}
    (member : x ∈ sep.intercalate items) : x ∈ sep ∨ ∃ item ∈ items, x ∈ item := by
  induction items with
  | nil => simp at member
  | cons item items ih =>
    cases items with
    | nil => simp_all
    | cons next items =>
      rw [List.intercalate_cons_cons, List.mem_append, List.mem_append] at member
      rcases member with (here | here) | later
      · exact .inr ⟨item, by simp, here⟩
      · exact .inl here
      · rcases ih later with here | ⟨other, listed, here⟩
        · exact .inl here
        · exact .inr ⟨other, List.mem_cons_of_mem _ listed, here⟩

def Unbroken (s : String) : Prop := s ≠ "" ∧ ∀ c ∈ s.toList, c ∉ [' ', ',', '(', ')', '"']

instance (s : String) : Decidable (Unbroken s) := @instDecidableAnd _ _ inferInstance (List.decidableBAll _ _)

def chars (s : String) : List Piece := s.toList.map plain

theorem chars_inj {s s' : String} : chars s = chars s' ↔ s = s' := by
  rw [chars, chars, List.map_inj_right fun _ _ => Piece.plain.inj, String.toList_inj]

@[simp] theorem writeAll_chars (s : String) : writeAll (chars s) = s.toList := by
  rw [chars]
  induction s.toList with
  | nil => rfl
  | cons c cs ih => simp [ih]

structure Solid (ps : List Piece) : Prop where
  ne_nil : ps ≠ []
  clear : ClearAll ps
  space : plain ' ' ∉ ps
  comma : plain ',' ∉ ps

theorem solid_chars {s : String} (unbroken : Unbroken s) : Solid (chars s) := by
  obtain ⟨some, inside⟩ := unbroken
  refine ⟨by simpa [chars] using some, clearAll_iff.2 ?_, ?_, ?_⟩
  · intro p member
    obtain ⟨c, here, rfl⟩ := List.mem_map.1 member
    have outside := inside c here
    simp only [List.mem_cons, not_or] at outside
    exact ⟨outside.2.2.1, outside.2.2.2.1, outside.2.2.2.2.1⟩
  all_goals
    intro member
    obtain ⟨c, here, same⟩ := List.mem_map.1 member
    cases same
    exact inside _ here (by decide)

theorem solid_quoted {text : List Char} (without : '"' ∉ text) : Solid [quoted text] :=
  ⟨by simp, by simpa using without, by simp, by simp⟩

def row (sep : String) (items : List (List Piece)) : Piece := group ((chars sep).intercalate items)

@[simp] theorem write_row (sep : String) (items : List (List Piece)) :
    (row sep items).write = '(' :: (sep.toList.intercalate (items.map writeAll) ++ [')']) := by
  simp [row]

def spaced (items : List (List Piece)) : Piece := row " " items

def listed (items : List (List Piece)) : Piece := row ", " items

section Rows

variable {items items' : List (List Piece)}

theorem solid_row {sep : String} (clear : ClearAll (chars sep)) (solid : ∀ item ∈ items, Solid item) :
    Solid [row sep items] := by
  have inside : ClearAll ((chars sep).intercalate items) := by
    refine clearAll_iff.2 fun p member => ?_
    rcases mem_intercalate member with here | ⟨item, listed, here⟩
    · exact clearAll_iff.1 clear p here
    · exact clearAll_iff.1 (solid item listed).clear p here
  exact ⟨by simp, by simpa [row] using inside, by simp [row], by simp [row]⟩

theorem solid_spaced (solid : ∀ item ∈ items, Solid item) : Solid [spaced items] :=
  solid_row (by simp [chars]) solid

theorem solid_listed (solid : ∀ item ∈ items, Solid item) : Solid [listed items] :=
  solid_row (by simp [chars]) solid

theorem spaced_inj (solid : ∀ item ∈ items, Solid item) (solid' : ∀ item ∈ items', Solid item) :
    spaced items = spaced items' ↔ items = items' := by
  refine ⟨fun h => ?_, fun h => by rw [h]⟩
  exact intercalate_inj (c := plain ' ') (fun x member => ⟨(solid x member).ne_nil, (solid x member).space⟩)
    (fun x member => ⟨(solid' x member).ne_nil, (solid' x member).space⟩) (Piece.group.inj h)

theorem listed_inj (solid : ∀ item ∈ items, Solid item) (solid' : ∀ item ∈ items', Solid item) :
    listed items = listed items' ↔ items = items' := by
  refine ⟨fun h => ?_, fun h => by rw [h]⟩
  exact intercalate_inj (c := plain ',') (fun x member => ⟨(solid x member).ne_nil, (solid x member).comma⟩)
    (fun x member => ⟨(solid' x member).ne_nil, (solid' x member).comma⟩) (Piece.group.inj h)

end Rows

end Piece
end Lox
