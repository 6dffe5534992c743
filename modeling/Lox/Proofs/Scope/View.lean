import Lox.Proofs.Run.Steps
import Lox.Scope

set_option autoImplicit false

namespace Lox.Arena

variable {κ ν : Type} {a : Arena κ ν} {s t : Int}

def cell? (a : Arena κ ν) (s : Int) : Option (Chain.Entry κ ν) :=
  (a.frame? s).map fun e => ⟨e.parent, e.bindings⟩

theorem isActive_eq (a : Arena κ ν) (s : Int) : a.isActive s = (a.cell? s).isSome := by
  simp [isActive, cell?]

theorem isActive_of_cell? {e : Chain.Entry κ ν} (found : a.cell? s = some e) : a.isActive s = true := by
  rw [isActive_eq, found]
  rfl

theorem cell?_of_isActive (active : a.isActive s = true) : ∃ e, a.cell? s = some e := by
  rwa [isActive_eq, Option.isSome_iff_exists] at active

theorem frame?_eq_some {e : Entry κ ν} (h : a.frame? s = some e) :
    0 ≤ s ∧ a.table[s.toNat]? = some e ∧ e.active = true := by
  unfold frame? at h
  split at h
  next nonneg =>
    obtain ⟨found, active⟩ := Option.filter_eq_some_iff.1 h
    exact ⟨nonneg, found, active⟩
  next => cases h

theorem cell?_eq_some {e : Chain.Entry κ ν} (h : a.cell? s = some e) :
    ∃ children, a.frame? s = some ⟨e.parent, children, e.bindings, true⟩ := by
  obtain ⟨f, found, rfl⟩ := Option.map_eq_some_iff.1 h
  obtain ⟨-, -, active⟩ := frame?_eq_some found
  refine ⟨f.children, ?_⟩
  rw [found, ← active]

theorem bounds_of_cell? {e : Chain.Entry κ ν} (h : a.cell? s = some e) :
    0 ≤ s ∧ s < a.table.size := by
  obtain ⟨children, found⟩ := cell?_eq_some h
  obtain ⟨nonneg, found, -⟩ := frame?_eq_some found
  have := (Array.getElem?_eq_some_iff.1 found).1
  omega

theorem cell?_update {f : Entry κ ν → Entry κ ν} {g : Chain.Entry κ ν → Chain.Entry κ ν}
    (nonneg : 0 ≤ s) (active : ∀ e, (f e).active = e.active)
    (seen : ∀ e, (⟨(f e).parent, (f e).bindings⟩ : Chain.Entry κ ν) = g ⟨e.parent, e.bindings⟩) :
    (a.update s f).cell? t = if t = s then (a.cell? s).map g else a.cell? t := by
  by_cases same : t = s
  · subst same
    simp only [cell?, frame?, update, nonneg, if_true, Array.getElem?_modify]
    cases a.table[t.toNat]? with
    | none => rfl
    | some e =>
      cases h : e.active <;> simp [Option.filter, active, h, seen]
  · by_cases other : 0 ≤ t
    · have apart : s.toNat ≠ t.toNat := by omega
      simp [cell?, frame?, update, other, same, Array.getElem?_modify, apart]
    · simp [cell?, frame?, other, same]

theorem cell?_relink (nonneg : 0 ≤ s) (f : List ScopeId → List ScopeId) :
    (a.update s fun e => { e with children := f e.children }).cell? t = a.cell? t := by
  have seen : (a.update s fun e => { e with children := f e.children }).cell? t =
      if t = s then (a.cell? s).map id else a.cell? t :=
    cell?_update nonneg (fun _ => rfl) fun _ => rfl
  rw [seen]
  split
  next same => simp [same]
  next => rfl

theorem cell?_push (a : Arena κ ν) (p : Int) (retained exited : List ScopeId) :
    (Arena.mk (a.table.push ⟨some p, [], [], true⟩) retained exited).cell? t =
      if t = a.table.size then some ⟨some p, []⟩ else a.cell? t := by
  by_cases nonneg : 0 ≤ t
  · have same : t.toNat = a.table.size ↔ t = a.table.size := by omega
    simp only [cell?, frame?, nonneg, if_true, Array.getElem?_push, same]
    split <;> rfl
  · have apart : t ≠ a.table.size := by omega
    simp [cell?, frame?, nonneg, apart]

def cleared (a : Arena κ ν) (s : ScopeId) : Arena κ ν :=
  { a.update s fun e => { e with bindings := [], active := false } with
    retained := a.retained.erase s, exited := a.exited.erase s }

def unlinked (a : Arena κ ν) (s p : ScopeId) : Arena κ ν :=
  if a.isActive p then a.update p fun e => { e with children := e.children.erase s } else a

theorem cell?_cleared (a : Arena κ ν) (nonneg : 0 ≤ s) :
    (a.cleared s).cell? t = if t = s then none else a.cell? t := by
  by_cases same : t = s
  · subst same
    simp only [cleared, cell?, frame?, update, nonneg, if_true, Array.getElem?_modify]
    cases a.table[t.toNat]? <;> rfl
  · by_cases other : 0 ≤ t
    · have apart : s.toNat ≠ t.toNat := by omega
      simp [cleared, cell?, frame?, update, other, same, Array.getElem?_modify, apart]
    · simp [cell?, frame?, other, same]

theorem cell?_unlinked (a : Arena κ ν) (s p : Int) : (a.unlinked s p).cell? t = a.cell? t := by
  unfold unlinked
  split
  next active =>
    obtain ⟨e, found⟩ := Option.isSome_iff_exists.1 ((isActive_eq a p).symm.trans active)
    exact cell?_relink (bounds_of_cell? found).1 fun children => children.erase s
  next => rfl

theorem size_unlinked (a : Arena κ ν) (s p : Int) :
    (a.unlinked s p).table.size = a.table.size := by
  unfold unlinked
  split <;> simp [update]

theorem marks_unlinked (a : Arena κ ν) (s p : Int) :
    (a.unlinked s p).retained = a.retained ∧ (a.unlinked s p).exited = a.exited := by
  unfold unlinked
  split <;> exact ⟨rfl, rfl⟩

theorem frame_run {e : Chain.Entry κ ν} (h : a.cell? s = some e) :
    ∃ children, (frame s).run a = (.ok ⟨e.parent, children, e.bindings, true⟩, a) := by
  obtain ⟨children, found⟩ := cell?_eq_some h
  refine ⟨children, ?_⟩
  unfold frame
  rw [run_bind, run_get]
  simp only [found]
  rfl

theorem frame_stale (gone : a.cell? s = none) : (frame s).run a = (.error (.stale s), a) := by
  have missing : a.frame? s = none := Option.map_eq_none_iff.1 gone
  unfold frame
  rw [run_bind, run_get]
  simp only [missing]
  rfl

theorem parent_run {e : Chain.Entry κ ν} (h : a.cell? s = some e) :
    (parent s).run a = (.ok e.parent, a) := by
  obtain ⟨children, run⟩ := frame_run h
  unfold parent
  rw [run_bind, run]
  rfl

theorem findIn_step [DecidableEq κ] (key : κ) (steps : Nat) (s : Int) (a : Arena κ ν) :
    (findIn key (steps + 1) s).run a =
      match a.cell? s with
      | none => (.error (.stale s), a)
      | some e =>
        if e.bindings.holds key then (.ok (some s), a)
        else
          match e.parent with
          | none => (.ok none, a)
          | some p => (findIn key steps p).run a := by
  rw [findIn, run_bind]
  cases found : a.cell? s with
  | none => rw [frame_stale found]
  | some e =>
    obtain ⟨children, run⟩ := frame_run found
    rw [run]
    dsimp only
    split
    next => rfl
    next => cases e.parent <;> rfl

/-- The mark is set before the scope is looked for, so that it is there even if the scope is not. -/
theorem retainFrom_step (steps : Nat) (s : Int) (a : Arena κ ν) :
    (retainFrom (steps + 1) s).run a =
      if s ∈ a.retained then (.ok (), a)
      else
        match a.cell? s with
        | none => (.error (.stale s), { a with retained := s :: a.retained })
        | some e =>
          match e.parent with
          | none => (.ok (), { a with retained := s :: a.retained })
          | some p => (retainFrom steps p).run { a with retained := s :: a.retained } := by
  rw [retainFrom, run_bind, run_get]
  simp only [List.contains_iff_mem]
  split
  next => rfl
  next =>
    rw [run_bind, run_modify]
    dsimp only
    rw [run_bind]
    cases found : a.cell? s with
    | none =>
      have gone : ({ a with retained := s :: a.retained } : Arena κ ν).cell? s = none := found
      rw [parent, run_bind, frame_stale gone]
    | some e =>
      have here : ({ a with retained := s :: a.retained } : Arena κ ν).cell? s = some e := found
      rw [parent_run here]
      dsimp only
      cases e.parent <;> rfl

theorem release_eq (inner : s ≠ root) (a : Arena κ ν) :
    (release s).run a =
      if s ∈ a.retained then (.ok (), { a with exited := a.exited.insert s }) else (drop s).run a := by
  unfold release
  rw [if_neg inner, run_bind, run_get]
  simp only [List.contains_iff_mem]
  split <;> rfl

theorem add_run {p : Int} {e : Chain.Entry κ ν} (h : a.cell? p = some e) :
    ∃ a', (add p).run a = (.ok (a.table.size : Int), a') ∧
      (∀ t, a'.cell? t = if t = a.table.size then some ⟨some p, []⟩ else a.cell? t) ∧
      a'.table.size = a.table.size + 1 ∧ a'.retained = a.retained ∧ a'.exited = a.exited := by
  obtain ⟨children, run⟩ := frame_run h
  have nonneg := (bounds_of_cell? h).1
  let linked := a.update p fun e => { e with children := e.children ++ [(a.table.size : Int)] }
  have size : linked.table.size = a.table.size := by simp [linked, update]
  refine ⟨⟨linked.table.push ⟨some p, [], [], true⟩, a.retained, a.exited⟩, ?_, ?_, ?_, rfl, rfl⟩
  · unfold add
    rw [run_bind, run]
    rfl
  · intro t
    rw [cell?_push, size]
    simp only [linked, cell?_relink nonneg fun c => c ++ [(a.table.size : Int)]]
  · simp [size]

theorem drop_eq {e : Entry κ ν} (found : a.frame? s = some e) (inner : s ≠ root) :
    (drop s).run a = (.ok (), e.parent.elim (a.cleared s) ((a.cleared s).unlinked s)) := by
  have here : (frame s).run a = (.ok e, a) := by
    unfold frame
    rw [run_bind, run_get]
    simp only [found]
    rfl
  unfold drop
  rw [if_neg inner, run_bind, here]
  dsimp only
  rw [run_modifyGet]
  cases e.parent with
  | none => rfl
  | some p =>
    -- The choice is made inside the pair here, around it there.
    rw [Option.elim_some, unlinked]
    exact congrArg (fun r : Unit × Arena κ ν => (Except.ok r.1, r.2)) (apply_ite (Prod.mk ()) _ _ _).symm

theorem drop_run {e : Chain.Entry κ ν} (h : a.cell? s = some e) (inner : s ≠ root) :
    ∃ a', (drop s).run a = (.ok (), a') ∧
      (∀ t, a'.cell? t = if t = s then none else a.cell? t) ∧
      a'.table.size = a.table.size ∧ a'.retained = a.retained.erase s ∧
      a'.exited = a.exited.erase s := by
  obtain ⟨children, found⟩ := cell?_eq_some h
  have nonneg := (bounds_of_cell? h).1
  have size : (a.cleared s).table.size = a.table.size := by simp [cleared, update]
  refine ⟨_, drop_eq found inner, ?_⟩
  cases e.parent with
  | none => exact ⟨fun t => cell?_cleared a nonneg, size, rfl, rfl⟩
  | some p =>
    obtain ⟨retained, exited⟩ := marks_unlinked (a.cleared s) s p
    refine ⟨fun t => ?_, (size_unlinked _ s p).trans size, retained, exited⟩
    exact (cell?_unlinked _ s p).trans (cell?_cleared a nonneg)

theorem drop_cases (a : Arena κ ν) (s : Int) :
    ((drop s).run a).2 = a ∨ s ≠ root ∧ ∃ e, a.cell? s = some e := by
  by_cases top : s = root
  · rw [drop, if_pos top]
    exact .inl rfl
  cases found : a.cell? s with
  | none =>
    rw [drop, if_neg top, run_bind, frame_stale found]
    exact .inl rfl
  | some e => exact .inr ⟨top, e, rfl⟩

theorem define_run [DecidableEq κ] {e : Chain.Entry κ ν} (h : a.cell? s = some e) (key : κ)
    (value : ν) :
    ∃ a', (define s key value).run a = (.ok (e.bindings.get? key), a') ∧
      (∀ t, a'.cell? t =
        if t = s then some ⟨e.parent, e.bindings.put key value⟩ else a.cell? t) ∧
      a'.table.size = a.table.size ∧ a'.retained = a.retained ∧ a'.exited = a.exited := by
  obtain ⟨children, run⟩ := frame_run h
  have nonneg := (bounds_of_cell? h).1
  refine ⟨a.update s fun e => { e with bindings := e.bindings.put key value }, ?_, ?_, ?_, rfl, rfl⟩
  · unfold define
    rw [run_bind, run]
    dsimp only
    rw [run_bind, run_modify]
    rfl
  · intro t
    have seen : (a.update s fun e => { e with bindings := e.bindings.put key value }).cell? t =
        if t = s then (a.cell? s).map fun e => ⟨e.parent, e.bindings.put key value⟩
        else a.cell? t :=
      cell?_update nonneg (fun _ => rfl) fun _ => rfl
    rw [seen, h]
    rfl
  · simp [update]

theorem mem_activeScopes : s ∈ a.activeScopes ↔ ∃ e, a.cell? s = some e := by
  unfold activeScopes
  rw [List.mem_filter, isActive_eq, Option.isSome_iff_exists]
  constructor
  · exact fun both => both.2
  · rintro ⟨e, found⟩
    obtain ⟨nonneg, below⟩ := bounds_of_cell? found
    refine ⟨List.mem_map.2 ⟨s.toNat, List.mem_range.2 (by omega), ?_⟩, e, found⟩
    exact Int.toNat_of_nonneg nonneg

theorem pairwise_activeScopes (a : Arena κ ν) : a.activeScopes.Pairwise (· < ·) := by
  unfold activeScopes
  apply List.Pairwise.filter
  rw [List.pairwise_map]
  exact List.pairwise_lt_range.imp fun less => Int.ofNat_lt.2 less

theorem le_last_of_active {e : Chain.Entry κ ν} (h : a.cell? s = some e) :
    s ≤ a.activeScopes.getLastD root := by
  have sorted := pairwise_activeScopes a
  have member := mem_activeScopes.2 ⟨e, h⟩
  rcases List.eq_nil_or_concat a.activeScopes with none | ⟨before, last, split⟩
  · rw [none] at member
    cases member
  · rw [split] at sorted member ⊢
    rw [List.concat_eq_append] at sorted member ⊢
    have less := (List.pairwise_append.1 sorted).2.2
    rw [List.getLastD_concat]
    rcases List.mem_append.1 member with earlier | same
    · exact Int.le_of_lt (less s earlier last (by simp))
    · exact Int.le_of_eq (List.mem_singleton.1 same)

theorem getElem?_take (a : Arena κ ν) (n i : Nat) :
    (a.table.take n)[i]? = if i < n then a.table[i]? else none := by
  simp only [Array.take_eq_extract, Array.getElem?_extract, Nat.zero_add, Nat.sub_zero]
  by_cases within : i < n
  · by_cases bound : i < a.table.size
    · rw [if_pos within, if_pos (by omega)]
    · rw [if_pos within, if_neg (by omega), Array.getElem?_eq_none (by omega)]
  · rw [if_neg within, if_neg (by omega)]

theorem cell?_take (n : Nat) (retained exited : List ScopeId) :
    (Arena.mk (a.table.take n) retained exited).cell? t =
      if t.toNat < n then a.cell? t else none := by
  simp only [cell?, frame?, getElem?_take]
  by_cases within : t.toNat < n
  · simp only [within, if_true]
  · simp only [within, if_false, Option.filter_none, ite_self, Option.map_none]

theorem compact_run (a : Arena κ ν) :
    ∃ shrunk a', compact.run a = (.ok shrunk, a') ∧ (∀ t, a'.cell? t = a.cell? t) ∧
      a'.retained = a.retained ∧ a'.exited = a.exited := by
  unfold compact
  rw [run_bind, run_get]
  dsimp only
  generalize length : 2 * ((a.activeScopes.getLastD root).toNat + 1) = target
  split
  next => exact ⟨false, a, rfl, fun _ => rfl, rfl, rfl⟩
  next =>
    refine ⟨true, _, rfl, ?_, rfl, rfl⟩
    intro t
    rw [cell?_take]
    split
    next => rfl
    next beyond =>
      symm
      apply Option.eq_none_iff_forall_ne_some.2
      intro e found
      have last := le_last_of_active found
      omega

end Lox.Arena
