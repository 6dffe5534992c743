import Lox.Proofs.Parser.Positions

set_option autoImplicit false

namespace Lox

namespace Reply

variable {α β : Type}

def Settled (r r' : Reply α) : Prop := r = r' ∧ r ≠ .tooDeep

namespace Settled

variable {r r' : Reply α}

theorem found (x : α) (c : Cursor) : (Reply.found x c).Settled (.found x c) := ⟨rfl, nofun⟩

theorem noMatch (c : Cursor) : (Reply.noMatch c : Reply α).Settled (.noMatch c) := ⟨rfl, nofun⟩

theorem failed (e : ParseError) : (Reply.failed e : Reply α).Settled (.failed e) := ⟨rfl, nofun⟩

theorem andThen {f f' : α → Cursor → Reply β} (h : r.Settled r')
    (next : ∀ x c, r = .found x c → (f x c).Settled (f' x c)) : (r.andThen f).Settled (r'.andThen f') := by
  obtain ⟨rfl, reached⟩ := h
  cases r with
  | found x c => exact next x c rfl
  | noMatch here => exact .noMatch here
  | failed e => exact .failed e
  | tooDeep => contradiction

theorem map (h : r.Settled r') (f : α → β) : (r.map f).Settled (r'.map f) :=
  h.andThen fun x c _ => found (f x) c

theorem orTry {f f' : Cursor → Reply α} (h : r.Settled r') (other : ∀ here, (f here).Settled (f' here)) :
    (r.orTry f).Settled (r'.orTry f') := by
  obtain ⟨rfl, reached⟩ := h
  cases r with
  | noMatch here => exact other here
  | found x c => exact .found x c
  | failed e => exact .failed e
  | tooDeep => contradiction

end Settled
end Reply

namespace Parser

variable {R : Type → Type} {α β : Type}

def takes : {α : Type} → Parser R α → Bool
  | _, kind _ | _, oneOf _ | _, never | _, oneOrMore _ | _, ref _ _ => true
  | _, endOfInput | _, done | _, zeroOrMore _ | _, optional _ _ | _, separated _ _ => false
  | _, pair p q => p.takes || q.takes
  | _, orElse p q => p.takes && q.takes
  | _, map p _ => p.takes
  | _, commit p _ => p.takes
  | _, update p _ _ _ _ => p.takes

def lead (level : {β : Type} → R β → Nat) : {α : Type} → Parser R α → Nat
  | _, kind _ | _, oneOf _ | _, endOfInput | _, done | _, never => 0
  | _, pair p q => max (p.lead level) (if p.takes then 0 else q.lead level)
  | _, orElse p q => max (p.lead level) (q.lead level)
  | _, zeroOrMore p => p.lead level
  | _, oneOrMore p => p.lead level
  | _, optional p _ => p.lead level
  | _, map p _ => p.lead level
  | _, separated p q => max (p.lead level) (if p.takes then 0 else q.lead level)
  | _, commit p _ => p.lead level
  | _, update p _ _ _ _ => p.lead level
  | _, ref r _ => level r + 1

def height : {α : Type} → Parser R α → Nat
  | _, kind _ | _, oneOf _ | _, endOfInput | _, done | _, never | _, ref _ _ => 1
  | _, pair p q => max p.height q.height + 1
  | _, orElse p q => max p.height q.height + 1
  | _, zeroOrMore p => p.height + 1
  | _, oneOrMore p => p.height + 1
  | _, optional p _ => p.height + 1
  | _, map p _ => p.height + 1
  | _, separated p q => max p.height q.height + 1
  | _, commit p _ => p.height + 1
  | _, update p _ _ _ q => max p.height q.height + 1

theorem lead_le {level : {β : Type} → R β → Nat} {top : Nat} (below : ∀ {β : Type} (r : R β), level r ≤ top)
    (p : Parser R α) : p.lead level ≤ top + 1 := by
  induction p with
  | kind | oneOf | endOfInput | done | never => exact Nat.zero_le _
  | pair p q first second | separated p q first second =>
    unfold lead
    split <;> omega
  | orElse p q first second => exact Nat.max_le.2 ⟨first, second⟩
  | zeroOrMore p inner | oneOrMore p inner | optional p _ inner | map p _ inner | commit p _ inner => exact inner
  | update p _ _ _ q target => exact target
  | ref r label => exact Nat.succ_le_succ (below r)

section Taking

variable {c last : Cursor}

theorem of_both {p : Cursor → Reply α} {q : Cursor → Reply β} {z : α × β} (h : both p q c = .found z last) :
    ∃ next, p c = .found z.1 next ∧ q next = .found z.2 last := by
  unfold both at h
  split at h
  next => cases h
  next =>
    obtain ⟨x, next, first, h⟩ := Reply.of_andThen h
    split at h
    next => cases h
    next =>
      obtain ⟨y, second, rfl⟩ := Reply.of_map h
      exact ⟨next, first, second⟩

theorem place_lt_of_repeated {step : Cursor → Reply α} (each : ∀ c, (step c).Onward c) {left : List Token}
    {xs : List α} (h : repeated step left c = .found xs last) (some : xs ≠ []) : c.place < last.place := by
  have round := each c
  unfold repeated at h
  generalize step c = r at h round
  cases r with
  | noMatch _ | failed _ | tooDeep => cases h <;> contradiction
  | found x next =>
    dsimp only at h
    split at h
    next =>
      cases h
      contradiction
    next moved =>
      -- The first round moves, and the others do not go back.
      cases left with
      | nil =>
        cases h
        contradiction
      | cons t left =>
        obtain ⟨ys, others, -⟩ := Reply.of_map h
        have after := onward_repeated each left (.refl next)
        rw [others] at after
        have first := round.place_le
        have more := after.place_le
        omega

variable {look : {β : Type} → R β → Cursor → Reply β}

theorem run_takes (onward : ∀ {β : Type} (r : R β) (c : Cursor), (look r c).Onward c)
    (refs : ∀ {β : Type} (r : R β) (c : Cursor) (x : β) (next : Cursor), look r c = .found x next → c.place < next.place)
    (p : Parser R α) (sure : p.takes = true) {x : α} (found : p.run look c = .found x last) : c.place < last.place := by
  have stays {γ : Type} {p : Parser R γ} {c next : Cursor} {x : γ} (found : p.run look c = .found x next) :
      c.place ≤ next.place := by
    have after := run_onward onward p c
    rw [found] at after
    exact after.place_le
  induction p generalizing c last with
  | kind k | oneOf ks =>
    unfold run one at found
    split at found
    next taken =>
      cases found
      exact (Cursor.Onward.of_take? taken).2
    next => cases found
  | endOfInput | done | zeroOrMore | optional | separated => cases sure
  | pair p q first second =>
    -- It is enough that one part takes a token, since the other stays or goes on.
    obtain ⟨next, found, found'⟩ := of_both found
    rcases Bool.or_eq_true_iff.1 sure with sure | sure
    · exact Nat.lt_of_lt_of_le (first sure found) (stays found')
    · exact Nat.lt_of_le_of_lt (stays found) (second sure found')
  | never => cases found
  | orElse p q first second =>
    obtain ⟨sure, sure'⟩ := Bool.and_eq_true_iff.1 sure
    rcases Reply.of_orTry found with found | ⟨here, -, found⟩
    · exact first sure found
    · exact second sure' found
  | oneOrMore p inner =>
    obtain ⟨xs, next, rounds, found⟩ := Reply.of_andThen found
    split at found
    next => cases found
    next some =>
      cases found
      exact place_lt_of_repeated (run_onward onward p) rounds (by simpa using some)
  | map p f inner =>
    obtain ⟨x, found, -⟩ := Reply.of_map found
    exact inner sure found
  | commit p expected inner =>
    rcases Reply.of_orTry found with found | ⟨here, -, failed⟩
    · exact inner sure found
    · cases failed
  | update p sign accepts expected q target value =>
    rw [run_update] at found
    obtain ⟨y, next, first, found⟩ := Reply.of_andThen found
    have moved := target sure first
    split at found
    next =>
      cases found
      exact moved
    next taken =>
      have beyond := (Cursor.Onward.of_take? taken).2
      split at found
      next => cases found
      next =>
        split at found
        next => cases found
        next =>
          obtain ⟨z, assigned, -⟩ := Reply.of_map found
          have rest := stays assigned
          omega
  | ref r label => exact refs r c x last found

end Taking

section Settling

variable {c : Cursor}

theorem settled_one (c : Cursor) (test : Kind → Bool) : (one c test).Settled (one c test) := by
  unfold one
  split
  · exact .found _ _
  · exact .noMatch c

theorem settled_both {p p' : Cursor → Reply α} {q q' : Cursor → Reply β} (first : (p c).Settled (p' c))
    (second : ∀ x next, p c = .found x next → (q next).Settled (q' next)) :
    (both p q c).Settled (both p' q' c) := by
  obtain ⟨same, reached⟩ := first
  unfold both
  rw [← same]
  cases run : p c with
  | noMatch _ => exact .noMatch c
  | failed e => exact .failed e
  | tooDeep => contradiction
  | found x next =>
    obtain ⟨same, reached⟩ := second x next run
    dsimp only [Reply.andThen]
    rw [← same]
    cases run : q next with
    | found y last => exact .found _ last
    | noMatch _ => exact .noMatch c
    | failed e => exact .failed e
    | tooDeep => contradiction

theorem settled_repeated {step step' : Cursor → Reply α} (onward : ∀ c, (step c).Onward c) (left : List Token)
    (each : ∀ c', c.Onward c' → (step c').Settled (step' c')) :
    (repeated step left c).Settled (repeated step' left c) := by
  induction left generalizing c with
  | nil =>
    obtain ⟨same, reached⟩ := each c (.refl c)
    unfold repeated
    rw [← same]
    cases run : step c with
    | found _ _ =>
      simp only [ite_self]
      exact .found [] c
    | noMatch _ => exact .found [] c
    | failed e => exact .failed e
    | tooDeep => contradiction
  | cons t left ih =>
    obtain ⟨same, reached⟩ := each c (.refl c)
    have round := onward c
    unfold repeated
    rw [← same]
    cases run : step c with
    | noMatch _ => exact .found [] c
    | failed e => exact .failed e
    | tooDeep => contradiction
    | found x next =>
      rw [run] at round
      dsimp only
      split
      · exact .found [] c
      · exact (ih fun c' after => each c' (round.trans after)).map _

def Ready (n k : Nat) (c : Cursor) (rank : Nat) : Prop := c.rest.length < n ∨ c.rest.length = n ∧ rank ≤ k

namespace Ready

variable {n k rank rank' : Nat} {c' : Cursor}

theorem mono (h : Ready n k c rank) (le : rank' ≤ rank) : Ready n k c rank' :=
  h.imp_right fun ⟨here, within⟩ => ⟨here, Nat.le_trans le within⟩

theorem onward (h : Ready n k c rank) (after : c.Onward c') : Ready n k c' rank := by
  have balance := after.balance
  have further := after.place_le
  unfold Ready at h ⊢
  omega

theorem past (h : Ready n k c rank) (after : c.Onward c') (moved : c.place < c'.place) : Ready n k c' rank' := by
  have balance := after.balance
  unfold Ready at h ⊢
  omega

end Ready

variable {look look' : {β : Type} → R β → Cursor → Reply β} {level : {β : Type} → R β → Nat} {n k : Nat}

theorem run_settled (onward : ∀ {β : Type} (r : R β) (c : Cursor), (look r c).Onward c)
    (taking : ∀ {β : Type} (r : R β) (c : Cursor) (x : β) (next : Cursor),
      look r c = .found x next → c.place < next.place)
    (refs : ∀ {β : Type} (r : R β) (c : Cursor), Ready n k c (level r + 1) → (look r c).Settled (look' r c))
    (p : Parser R α) {c : Cursor} (ready : Ready n k c (p.lead level)) :
    (p.run look c).Settled (p.run look' c) := by
  have further {γ : Type} {p : Parser R γ} {c next : Cursor} {x : γ} (found : p.run look c = .found x next) :
      c.Onward next := by
    have after := run_onward onward p c
    rwa [found] at after
  -- After a first part the second is ready, whether or not a token has been taken.
  have behind {γ : Type} {p : Parser R γ} {c next : Cursor} {x : γ} {first second : Nat}
      (ready : Ready n k c (max first (if p.takes then 0 else second))) (found : p.run look c = .found x next) :
      Ready n k next second := by
    by_cases sure : p.takes = true
    · exact ready.past (further found) (run_takes onward taking p sure found)
    · rw [if_neg sure] at ready
      exact (ready.mono (Nat.le_max_right _ _)).onward (further found)
  induction p generalizing c with
  | kind k | oneOf ks => exact settled_one c _
  | endOfInput =>
    unfold run
    split
    · exact .found () c
    · exact .noMatch c
  | done => exact .found () c
  | pair p q first second =>
    exact settled_both (first (ready.mono (Nat.le_max_left _ _))) fun x next found => second (behind ready found)
  | never => exact .noMatch c
  | orElse p q first second =>
    exact (first (ready.mono (Nat.le_max_left _ _))).orTry fun _ => second (ready.mono (Nat.le_max_right _ _))
  | zeroOrMore p inner =>
    exact settled_repeated (run_onward onward p) c.rest fun c' after => inner (ready.onward after)
  | oneOrMore p inner =>
    have rounds := settled_repeated (run_onward onward p) c.rest fun c' after => inner (ready.onward after)
    refine rounds.andThen fun xs next _ => ?_
    split
    · exact .noMatch c
    · exact .found xs next
  | optional p default inner => exact (inner ready).orTry fun _ => .found default c
  | map p f inner => exact (inner ready).map f
  | separated p q item between =>
    have start := item (ready.mono (Nat.le_max_left _ _))
    obtain ⟨same, reached⟩ := start
    rw [run_separated, run_separated, ← same]
    cases found : p.run look c with
    | noMatch _ => exact .found [] c
    | failed e => exact .failed e
    | tooDeep => contradiction
    | found x next =>
      have after := further found
      refine Reply.Settled.map (settled_repeated (onward_both (run_onward onward q) (run_onward onward p)) _ ?_) _
      intro c' later
      refine settled_both (between ((behind ready found).onward later)) fun y next' found' => item ?_
      have reached := after.trans (later.trans (further found'))
      exact (ready.mono (Nat.le_max_left _ _)).onward reached
  | commit p expected inner => exact (inner ready).orTry fun _ => .failed _
  | update p sign accepts expected q target value =>
    rw [run_update, run_update]
    refine (target ready).andThen fun x next found => ?_
    cases sign : next.take? (· == sign) with
    | none => exact .found x next
    | some taken =>
      obtain ⟨t, after⟩ := taken
      dsimp only
      cases accepts x with
      | none => exact .failed _
      | some build =>
        obtain ⟨beyond, moved⟩ := Cursor.Onward.of_take? sign
        have start := further found
        have first := start.place_le
        obtain ⟨same, reached⟩ := value (ready.past (start.trans beyond) (by omega))
        dsimp only
        rw [← same]
        cases run : q.run look after with
        | found y last => exact .found _ last
        | noMatch _ => exact .noMatch c
        | failed e => exact .failed e
        | tooDeep => contradiction
  | ref r label => exact refs r c ready

end Settling

end Parser

namespace Rules

variable {R : Type → Type}

/-- Every rule takes a token when it matches, and asks for none but rules of lower levels before. -/
structure Ranked (rules : Rules R) (level : {β : Type} → R β → Nat) (top : Nat) : Prop where
  takes : ∀ {β : Type} (r : R β), (rules r).takes = true
  lead_le : ∀ {β : Type} (r : R β), (rules r).lead level ≤ level r
  level_le : ∀ {β : Type} (r : R β), level r ≤ top

namespace Ranked

variable {rules : Rules R} {level : {β : Type} → R β → Nat} {top : Nat} (ranked : rules.Ranked level top) {α : Type}

include ranked

theorem look_takes (depth : Nat) (r : R α) (c : Cursor) (x : α) (next : Cursor)
    (found : rules.look depth r c = .found x next) : c.place < next.place := by
  induction depth generalizing α c next with
  | zero => cases found
  | succ depth ih => exact Parser.run_takes (rules.look_onward depth) ih (rules r) (ranked.takes r) found

theorem need_lt {n k : Nat} {r : R α} {c : Cursor} (ready : Parser.Ready n k c (level r + 1)) :
    (top + 1) * c.rest.length + level r < (top + 1) * n + k := by
  have below := ranked.level_le r
  rcases ready with shorter | ⟨same, lower⟩
  · have step := Nat.mul_le_mul_left (top + 1) (Nat.succ_le_of_lt shorter)
    rw [Nat.mul_succ] at step
    omega
  · rw [same]
    omega

theorem look_settled {depth depth' : Nat} {r : R α} {c : Cursor}
    (enough : (top + 1) * c.rest.length + level r < depth) (enough' : (top + 1) * c.rest.length + level r < depth') :
    (rules.look depth r c).Settled (rules.look depth' r c) := by
  -- Both depths go down by one for each reference that is followed.
  induction depth generalizing α depth' c with
  | zero => cases enough
  | succ depth ih =>
    cases depth' with
    | zero => cases enough'
    | succ depth' =>
      have ready : Parser.Ready c.rest.length (level r) c ((rules r).lead level) := .inr ⟨rfl, ranked.lead_le r⟩
      refine Parser.run_settled (rules.look_onward depth) (ranked.look_takes depth) ?_ (rules r) ready
      intro β r' c' ready'
      have less := ranked.need_lt ready'
      exact ih (by omega) (by omega)

theorem parse_settled {depth depth' : Nat} {c : Cursor} (p : Parser R α)
    (enough : (top + 1) * c.rest.length + p.lead level ≤ depth)
    (enough' : (top + 1) * c.rest.length + p.lead level ≤ depth') :
    (rules.parse depth p c).Settled (rules.parse depth' p c) := by
  have ready : Parser.Ready c.rest.length (p.lead level) c (p.lead level) := .inr ⟨rfl, Nat.le_refl _⟩
  refine Parser.run_settled (rules.look_onward depth) (ranked.look_takes depth) ?_ p ready
  intro β r c' ready'
  have less := ranked.need_lt ready'
  exact ranked.look_settled (by omega) (by omega)

end Ranked
end Rules
end Lox
