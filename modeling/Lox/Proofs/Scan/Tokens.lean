import Lox.Proofs.Scan.Rules

set_option autoImplicit false

namespace Lox.Scan

/-- Read from offset `place` on, `front` gives `tokens` when `rest` follows it. -/
inductive Reads : Nat → List Char → List Token → List Char → Prop
  | done {place : Nat} {rest : List Char} : Reads place [] [] rest
  | silent {place : Nat} {w front rest : List Char} {tokens : List Token}
      (longest : Longest (w ++ (front ++ rest)) w) (silent : Silent w)
      (more : Reads (place + w.length) front tokens rest) : Reads place (w ++ front) tokens rest
  | token {place : Nat} {w front rest : List Char} {tokens : List Token} {a : Lexeme}
      (longest : Longest (w ++ (front ++ rest)) w) (spelled : Spelled w a)
      (more : Reads (place + w.length) front tokens rest) :
      Reads place (w ++ front) (⟨a, some ⟨place, place + w.length⟩⟩ :: tokens) rest

def Blocked (cs : List Char) : Prop := cs ≠ [] ∧ ∀ (r : Rule) (w : List Char), w <+: cs → ¬ r.Matches w

section Runs

variable {place : Nat} {w cs front rest : List Char} {tokens : List Token} {a : Lexeme}

theorem scanFrom_skip (place skip : Nat) (cs : List Char) :
    scanFrom place skip cs = scanFrom (place + skip) 0 (cs.drop skip) := by
  induction cs generalizing place skip with
  | nil => simp [scanFrom]
  | cons c cs ih =>
    cases skip with
    | zero => rfl
    | succ skip =>
      rw [scanFrom, ih, List.drop_succ_cons]
      congr 1
      omega

theorem scanFrom_longest (longest : Longest (w ++ cs) w) :
    scanFrom place 0 (w ++ cs) =
      (scanFrom (place + w.length) 0 cs).map fun tokens =>
        match (Rule.ofStart w).lexeme? w with
        | none => tokens
        | some a => ⟨a, some ⟨place, place + w.length⟩⟩ :: tokens := by
  have found := longest.munch
  obtain ⟨c, v, rfl⟩ := List.exists_cons_of_ne_nil longest.ne_nil
  rw [List.cons_append] at found ⊢
  have after : scanFrom (place + 1) v.length (v ++ cs) = scanFrom (place + (c :: v).length) 0 cs := by
    rw [scanFrom_skip, List.drop_left, List.length_cons]
    congr 1
    omega
  rw [scanFrom, found]
  simp only [List.length_cons, Nat.add_one_ne_zero, if_false, Nat.add_sub_cancel, after]
  rw [List.take_succ_cons, List.take_left]
  cases scanFrom (place + (c :: v).length) 0 cs with
  | error e => rfl
  | ok tokens => cases (Rule.ofStart (c :: v)).lexeme? (c :: v) <;> rfl

theorem scanFrom_blocked (blocked : Blocked cs) : scanFrom place 0 cs = .error place := by
  obtain ⟨some, free⟩ := blocked
  obtain ⟨c, cs, rfl⟩ := List.exists_cons_of_ne_nil some
  simp [scanFrom, munch_none.2 free]

theorem lexeme?_spelled (spelled : Spelled w a) : (Rule.ofStart w).lexeme? w = some a := by
  obtain ⟨r, matched, token⟩ := Rule.matches_of_spelled spelled
  rw [matched.ofStart, token]

theorem lexeme?_silent (silent : Silent w) : (Rule.ofStart w).lexeme? w = none := by
  rcases silent with matched | matched
  all_goals
    rw [matched.ofStart]
    rfl

theorem Reads.scanFrom (reads : Reads place front tokens rest) :
    scanFrom place 0 (front ++ rest) = (scanFrom (place + front.length) 0 rest).map (tokens ++ ·) := by
  induction reads with
  | @done place rest =>
    simp only [List.nil_append, List.length_nil, Nat.add_zero]
    cases Scan.scanFrom place 0 rest <;> rfl
  | @silent place w front rest tokens longest silent more ih =>
    rw [List.append_assoc, scanFrom_longest longest, lexeme?_silent silent, ih, List.length_append, ← Nat.add_assoc]
    cases Scan.scanFrom (place + w.length + front.length) 0 rest <;> rfl
  | @token place w front rest tokens a longest spelled more ih =>
    rw [List.append_assoc, scanFrom_longest longest, lexeme?_spelled spelled, ih, List.length_append, ← Nat.add_assoc]
    cases Scan.scanFrom (place + w.length + front.length) 0 rest <;> rfl

theorem exists_reads (place : Nat) (cs : List Char) :
    ∃ front tokens rest, cs = front ++ rest ∧ Reads place front tokens rest ∧ (rest = [] ∨ Blocked rest) := by
  induction size : cs.length using Nat.strong_induction_on generalizing place cs with
  | _ n ih =>
    by_cases ended : cs = []
    · exact ⟨[], [], [], ended, .done, .inl rfl⟩
    by_cases none : (munch cs).2 = 0
    · exact ⟨[], [], cs, rfl, .done, .inr ⟨ended, munch_none.1 none⟩⟩
    obtain ⟨w, longest, matched, -⟩ := exists_longest none
    obtain ⟨tail, rfl⟩ := longest.front
    have some : 0 < w.length := List.length_pos_iff.2 longest.ne_nil
    have shorter : tail.length < n := by
      rw [← size, List.length_append]
      omega
    obtain ⟨front, tokens, rest, rfl, reads, stops⟩ := ih _ shorter (place + w.length) tail rfl
    cases token : (munch (w ++ (front ++ rest))).1.lexeme? w with
    | none =>
      exact ⟨w ++ front, tokens, rest, by simp, .silent longest (matched.silent token) reads, stops⟩
    | some a =>
      exact ⟨w ++ front, _, rest, by simp, .token longest (matched.spelled token) reads, stops⟩

end Runs

inductive Blank : List Char → List Char → Prop
  | none {rest : List Char} : Blank [] rest
  | piece {w front rest : List Char} (longest : Longest (w ++ (front ++ rest)) w) (silent : Silent w)
      (more : Blank front rest) : Blank (w ++ front) rest

def covered (cs : List Char) (span : Span) : List Char := (cs.drop span.start).take (span.stop - span.start)

def gaps (place : Nat) (tokens : List Token) (stop : Nat) : List Span :=
  match tokens with
  | [] => [⟨place, stop⟩]
  | t :: tokens =>
    match t.span with
    | none => gaps place tokens stop
    | some span => ⟨place, span.start⟩ :: gaps span.stop tokens stop

structure Placed (cs : List Char) (token : Token) (span : Span) : Prop where
  span_eq : token.span = some span
  nonempty : span.start < span.stop
  longest : Longest (cs.drop span.start) (covered cs span)
  spelled : ∀ a, Spelled (covered cs span) a ↔ a = token.lexeme

structure Tokenized (cs : List Char) (place stop : Nat) (tokens : List Token) : Prop where
  placed : ∀ t ∈ tokens, ∃ span, Placed cs t span ∧ place ≤ span.start ∧ span.stop ≤ stop
  ordered : tokens.Pairwise fun t u => ∀ s s', t.span = some s → u.span = some s' → s.stop ≤ s'.start
  between : ∀ gap ∈ gaps place tokens stop, gap.start ≤ gap.stop ∧ Blank (covered cs gap) (cs.drop gap.stop)

section Covered

variable {cs w rest : List Char} {i j k : Nat}

theorem covered_front (here : cs.drop i = w ++ rest) : covered cs ⟨i, i + w.length⟩ = w := by
  simp [covered, here]

theorem drop_front (here : cs.drop i = w ++ rest) : cs.drop (i + w.length) = rest := by
  rw [← List.drop_drop, here, List.drop_left]

theorem covered_append (first : i ≤ j) (last : j ≤ k) :
    covered cs ⟨i, k⟩ = covered cs ⟨i, j⟩ ++ covered cs ⟨j, k⟩ := by
  have halves : k - i = (j - i) + (k - j) := by omega
  have drops : cs.drop j = (cs.drop i).drop (j - i) := by rw [List.drop_drop, Nat.add_sub_cancel' first]
  simp only [covered, halves, drops, List.take_add]

theorem covered_drop (first : i ≤ j) : covered cs ⟨i, j⟩ ++ cs.drop j = cs.drop i := by
  have drops : cs.drop j = (cs.drop i).drop (j - i) := by rw [List.drop_drop, Nat.add_sub_cancel' first]
  simp only [covered, drops, List.take_append_drop]

end Covered

theorem gaps_cons (tokens : List Token) (stop : Nat) :
    ∃ first others, ∀ place, gaps place tokens stop = ⟨place, first⟩ :: others := by
  induction tokens with
  | nil => exact ⟨stop, [], fun _ => rfl⟩
  | cons t tokens ih =>
    cases covers : t.span with
    | none => simpa [gaps, covers] using ih
    | some span => exact ⟨span.start, gaps span.stop tokens stop, fun _ => by simp [gaps, covers]⟩

theorem Reads.tokenized {cs front rest : List Char} {place : Nat} {tokens : List Token}
    (reads : Reads place front tokens rest) (here : cs.drop place = front ++ rest) :
    Tokenized cs place (place + front.length) tokens := by
  induction reads with
  | done =>
    refine ⟨by simp, .nil, ?_⟩
    simp only [gaps, List.mem_singleton]
    rintro _ rfl
    simpa [covered] using Blank.none
  | @silent place w front rest tokens longest silent more ih =>
    rw [List.append_assoc] at here
    have after := drop_front here
    rw [List.length_append, ← Nat.add_assoc]
    obtain ⟨placed, ordered, between⟩ := ih after
    refine ⟨?_, ordered, ?_⟩
    · intro t member
      obtain ⟨span, own, low, high⟩ := placed t member
      exact ⟨span, own, by omega, high⟩
    · obtain ⟨first, others, shape⟩ := gaps_cons tokens (place + w.length + front.length)
      simp only [shape, List.forall_mem_cons] at between ⊢
      obtain ⟨⟨ahead, blank⟩, later⟩ := between
      refine ⟨⟨by omega, ?_⟩, later⟩
      rw [covered_append (Nat.le_add_right place w.length) ahead, covered_front here]
      refine .piece ?_ silent blank
      rwa [covered_drop ahead, after]
  | @token place w front rest tokens a longest spelled more ih =>
    rw [List.append_assoc] at here
    have own := covered_front here
    have some := List.length_pos_iff.2 longest.ne_nil
    rw [List.length_append, ← Nat.add_assoc]
    obtain ⟨placed, ordered, between⟩ := ih (drop_front here)
    refine ⟨?_, ?_, ?_⟩
    · simp only [List.forall_mem_cons]
      constructor
      · refine ⟨⟨place, place + w.length⟩, ⟨rfl, by simpa using some, ?_, ?_⟩, Nat.le_refl _, by simp⟩
        · rwa [here, own]
        · rw [own]
          exact fun b => ⟨fun other => other.unique spelled, fun same => same ▸ spelled⟩
      · intro t member
        obtain ⟨span, own, low, high⟩ := placed t member
        exact ⟨span, own, by omega, high⟩
    · refine .cons ?_ ordered
      rintro u member _ s' ⟨⟩ covers
      obtain ⟨span, own, low, -⟩ := placed u member
      obtain rfl := Option.some.inj (covers.symm.trans own.span_eq)
      exact low
    · simp only [gaps, List.forall_mem_cons]
      refine ⟨⟨Nat.le_refl _, ?_⟩, between⟩
      simpa [covered] using Blank.none

theorem scan_ok_iff {text : String} {tokens : List Token} :
    scan text = .ok tokens ↔ Reads 0 text.toList tokens [] := by
  constructor
  · intro scanned
    obtain ⟨front, found, rest, split, reads, stops⟩ := exists_reads 0 text.toList
    have run := reads.scanFrom
    rw [scan, split, run] at scanned
    rcases stops with rfl | blocked
    · simp only [scanFrom, Except.map, List.append_nil, Except.ok.injEq] at scanned
      rwa [split, List.append_nil, ← scanned]
    · rw [scanFrom_blocked blocked] at scanned
      cases scanned
  · intro reads
    have run := reads.scanFrom
    rw [List.append_nil] at run
    simp [scan, run, scanFrom, Except.map]

end Lox.Scan
