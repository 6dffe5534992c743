import Lox.Proofs.Lexical.Eval
import Lox.Proofs.Run.Sharing
import Lox.Proofs.Scope.Mirror
import Lox.Proofs.Slots.Growth

set_option autoImplicit false

namespace Lox

def StaticScope.HasSlot (f : StaticScope) (i : Int) : Prop := ∃ d ∈ f, ∃ text, d.2 = .slot i text

namespace Lexical

/-- A way to tell identifiers apart that agrees with their keys on those that are known. -/
structure Naming where
  same : Ident → Ident → Bool
  known : Ident → Prop
  agree : ∀ {a b : Ident}, known a → known b → (same a b = true ↔ a.key = b.key)

structure Site where
  parent : Option Int
  own : Int → Prop

structure World where
  site : Int → Option Site
  place : Int → Int → Option Nat
  captured : Nat → Option (Env)
  live : Value → Prop
  pending : Int → Int → Prop

namespace World

structure Sub (v w : World) : Prop where
  site : ∀ {s site}, v.site s = some site → w.site s = some site
  place : ∀ {s i l}, v.place s i = some l → w.place s i = some l
  captured : ∀ {k env}, v.captured k = some env → w.captured k = some env
  live : ∀ {x}, v.live x → w.live x

structure Le (growing : Option Int) (v w : World) : Prop extends Sub v w where
  frozen : ∀ {s site i l}, v.site s = some site → growing ≠ some s → w.place s i = some l →
    v.place s i = some l
  pending : w.pending = v.pending

theorem Sub.refl (w : World) : w.Sub w := ⟨id, id, id, id⟩

theorem Sub.trans {u v w : World} (first : u.Sub v) (next : v.Sub w) : u.Sub w where
  site here := next.site (first.site here)
  place here := next.place (first.place here)
  captured here := next.captured (first.captured here)
  live here := next.live (first.live here)

theorem Le.refl (growing : Option Int) (w : World) : w.Le growing w :=
  ⟨.refl w, fun _ _ here => here, rfl⟩

theorem Le.trans {growing : Option Int} {u v w : World} (first : u.Le growing v)
    (next : v.Le growing w) : u.Le growing w where
  toSub := first.toSub.trans next.toSub
  frozen known other here := first.frozen known other (next.frozen (first.site known) other here)
  pending := next.pending.trans first.pending

theorem Le.loosen {v w : World} (h : v.Le none w) (growing : Option Int) : v.Le growing w :=
  ⟨h.toSub, fun known _ here => h.frozen known nofun here, h.pending⟩

end World

section Alignment

variable (N : Naming)

def Lines (w : World) (s : Int) : StaticScope → Frame → Prop :=
  List.Forall₂ fun d e => N.known e.1 ∧ d.1 = e.1.key ∧
    ∃ i, d.2 = .slot i (some e.1.shown) ∧ w.place s i = some e.2

/-- Static scopes, run-time scopes from `s` up and an environment that stand for each other. -/
inductive Aligned (w : World) : Int → List StaticScope → Env → Prop
  | top {site : Site} {f : StaticScope} {e : Frame} :
      w.site root = some site → site.parent = none → Lines N w root f e → Aligned w root [f] [e]
  | inner {s p : Int} {site : Site} {f : StaticScope} {e : Frame} {fs : List StaticScope}
      {es : Env} : w.site s = some site → site.parent = some p → Lines N w s f e →
      (∀ g ∈ fs, ∀ d ∈ g, ∀ i text, d.2 = .slot i text → ¬ site.own i) → Aligned w p fs es →
      Aligned w s (f :: fs) (e :: es)

def Filled (w : World) (s : Int) (f : StaticScope) : Prop :=
  ∀ i l, w.place s i = some l → f.HasSlot i

structure Stands (w : World) (s : Int) (fs : List StaticScope) (env : Env) : Prop where
  aligned : Aligned N w s fs env
  filled : Filled w s (fs.headD [])

structure Closures (w : World) (f g : Closure) : Prop where
  alike : f.Alike g
  known : ∀ p ∈ g.params, N.known p
  orderly : Tree.OrderlyAll N.known g.body
  code : ∃ (slots slots₁ slots₂ : Slots) (env : Env), slots.Sound ∧
    Slots.DeclaresAll slots.enter g.params f.params slots₁ ∧
    Slots.ResolvesAll slots₁ g.body f.body slots₂ ∧
    w.captured g.scope.toNat = some env ∧ Aligned N w f.scope slots.frames env

variable {N} {v w : World} {s : Int} {fs : List StaticScope} {env : Env}

theorem Lines.mono {f : StaticScope} {e : Frame} (h : Lines N v s f e) (sub : v.Sub w) :
    Lines N w s f e := by
  refine List.Forall₂.imp ?_ h
  rintro d e ⟨known, key, i, slot, here⟩
  exact ⟨known, key, i, slot, sub.place here⟩

theorem Aligned.mono (h : Aligned N v s fs env) (sub : v.Sub w) : Aligned N w s fs env := by
  induction h with
  | top site parent lines => exact .top (sub.site site) parent (lines.mono sub)
  | inner site parent lines apart _ ih =>
    exact .inner (sub.site site) parent (lines.mono sub) apart ih

theorem Aligned.known (h : Aligned N w s fs env) : ∃ site, w.site s = some site := by
  cases h with
  | top site _ _ => exact ⟨_, site⟩
  | inner site _ _ _ _ => exact ⟨_, site⟩

theorem Stands.mono (h : Stands N v s fs env) (le : v.Le none w) : Stands N w s fs env := by
  refine ⟨h.aligned.mono le.toSub, fun i l here => ?_⟩
  obtain ⟨site, known⟩ := h.aligned.known
  exact h.filled i l (le.frozen known nofun here)

theorem Closures.mono {f g : Closure} (h : Closures N v f g) (sub : v.Sub w) : Closures N w f g := by
  obtain ⟨slots, slots₁, slots₂, env, sound, declared, resolved, captured, aligned⟩ := h.code
  exact ⟨h.alike, h.known, h.orderly, slots, slots₁, slots₂, env, sound, declared, resolved,
    sub.captured captured, aligned.mono sub⟩

abbrev Values (N : Naming) (w : World) : Value → Value → Prop :=
  Value.Related (Closures N w) w.live

theorem Values.mono {x y : Value} (h : Values N v x y) (sub : v.Sub w) : Values N w x y :=
  Value.Related.mono h (fun _ _ both => both.mono sub) fun _ alive => sub.live alive

end Alignment

section Holds

variable {N : Naming} {w : World} {s : Int}

structure Holds (N : Naming) (w : World) (c : Chain Int Value) (store : Array Value) : Prop where
  top : ∃ site, w.site root = some site ∧ site.parent = none ∧ ∀ i, site.own i
  sites : ∀ {s site}, w.site s = some site →
    0 ≤ s ∧ ∃ f, c.frame? s = some f ∧ f.parent = site.parent
  older : ∀ {s : Int} {f} {p : Int}, 0 ≤ s → c.frame? s = some f → f.parent = some p → 0 ≤ p ∧ p < s
  bound : ∀ {s site f i}, w.site s = some site → c.frame? s = some f → f.bindings.holds i = true →
    ∃ l, w.place s i = some l
  placed : ∀ {s i l}, w.place s i = some l →
    (∃ site, w.site s = some site ∧ site.own i) ∧ l < store.size
  related : ∀ {s i l}, w.place s i = some l → ¬ w.pending s i →
    ∃ f v v', c.frame? s = some f ∧ f.bindings.get? i = some v ∧ store[l]? = some v' ∧ Values N w v v'
  inj : ∀ {s s' i i' l}, w.place s i = some l → w.place s' i' = some l → s = s' ∧ i = i'

variable {name : Ident}

theorem Lines.find? {f : StaticScope} {e : Frame} (h : Lines N w s f e) (known : N.known name) :
    (f.find? name.key = none ∧ e.find? N.same name = none) ∨
      ∃ i declared l, f.find? name.key = some (.slot i (some declared.shown)) ∧
        e.find? N.same name = some (declared, l) ∧ w.place s i = some l ∧
        ∃ d ∈ f, d.2 = .slot i (some declared.shown) := by
  unfold StaticScope.find? Frame.find?
  induction h with
  | nil => exact .inl ⟨rfl, rfl⟩
  | @cons d e f es both rest ih =>
    obtain ⟨key, slot⟩ := d
    obtain ⟨declared, l⟩ := e
    obtain ⟨known', rfl, i, rfl, here⟩ := both
    by_cases same : name.key = declared.key
    · right
      refine ⟨i, declared, l, ?_, ?_, here, _, List.mem_cons_self, rfl⟩
      · simp [same]
      · simp [(N.agree known' known).2 same.symm]
    · have apart : (name.key == declared.key) = false := beq_eq_false_iff_ne.2 same
      have apart' : ¬ N.same declared name = true := fun eq => same ((N.agree known' known).1 eq).symm
      rcases ih with ⟨none, none'⟩ | ⟨i, declared, l, found, found', here, d, member, same'⟩
      · left
        simp [List.lookup_cons, apart, apart', none, none']
      · right
        refine ⟨i, declared, l, ?_, ?_, here, d, List.mem_cons_of_mem _ member, same'⟩
        · simp [List.lookup_cons, apart, found]
        · simp [apart', found']

theorem Aligned.find? {fs : List StaticScope} {env : Env} (h : Aligned N w s fs env)
    (settled : ∀ u i, ¬ w.pending u i) (known : N.known name)
    {slot : Ident} (found : fs.findSome? (·.find? name.key) = some slot) :
    ∃ i text declared l u, slot = .slot i text ∧ env.find? N.same name = some (declared, l) ∧
      w.place u i = some l ∧ (∃ f ∈ fs, ∃ d ∈ f, d.2 = .slot i text) ∧
      ∀ {c store}, Holds N w c store → ∀ steps : Nat, s.toNat < steps →
        c.findIn i steps s = some u := by
  have hit : ∀ {s i l}, w.place s i = some l → ∀ {c store}, Holds N w c store → ∀ steps : Nat,
      s.toNat < steps → c.findIn i steps s = some s := by
    intro s i l here c store holds steps enough
    obtain ⟨steps, rfl⟩ := Nat.exists_eq_succ_of_ne_zero (show steps ≠ 0 by omega)
    obtain ⟨f, v, v', frame, bound, -⟩ := holds.related here (settled _ _)
    simp [Chain.findIn, frame, Bindings.holds, bound]
  unfold Env.find?
  induction h with
  | @top site f e known' parent lines =>
    rcases lines.find? known with ⟨none, -⟩ | ⟨i, declared, l, found', found'', here, d, member, same⟩
    · simp [none] at found
    · simp only [List.findSome?_cons, found'] at found
      cases found
      refine ⟨i, _, declared, l, root, rfl, ?_, here, ⟨f, List.mem_cons_self, d, member, same⟩, hit here⟩
      simp [found'']
  | @inner s p site f e fs es known' parent lines apart _ ih =>
    rcases lines.find? known with
      ⟨none, none'⟩ | ⟨i, declared, l, found', found'', here, d, member, same⟩
    · simp only [List.findSome?_cons, none] at found
      obtain ⟨i, text, declared, l, u, rfl, found', here, ⟨g, outer, d, member, same⟩, walk⟩ := ih found
      refine ⟨i, text, declared, l, u, rfl, ?_, here,
        ⟨g, List.mem_cons_of_mem _ outer, d, member, same⟩, ?_⟩
      · simp [none', found']
      · intro c store holds steps enough
        obtain ⟨steps, rfl⟩ := Nat.exists_eq_succ_of_ne_zero (show steps ≠ 0 by omega)
        obtain ⟨nonneg, frame, present, parent'⟩ := holds.sites known'
        rw [parent] at parent'
        have older := holds.older nonneg present parent'
        -- The slot belongs further out, so it is none that this scope may bind.
        have unbound : frame.bindings.holds i = false := by
          by_contra bound
          obtain ⟨l, there⟩ := holds.bound known' present (by simpa using bound)
          obtain ⟨⟨site', same', own⟩, -⟩ := holds.placed there
          rw [known'] at same'
          cases same'
          exact apart g outer d member i text same own
        simp only [Chain.findIn, present, unbound, parent', Option.bind_some]
        exact walk holds steps (by omega)
    · simp only [List.findSome?_cons, found'] at found
      cases found
      refine ⟨i, _, declared, l, s, rfl, ?_, here, ⟨f, List.mem_cons_self, d, member, same⟩, hit here⟩
      simp [found'']

end Holds
end Lexical
end Lox
