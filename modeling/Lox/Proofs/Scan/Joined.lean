import Lox.Proofs.Scan.Tokens

set_option autoImplicit false

namespace Lox

def Span.shift (n : Nat) (s : Span) : Span := ⟨s.start + n, s.stop + n⟩

def Token.shift (n : Nat) (t : Token) : Token := ⟨t.lexeme, t.span.map (Span.shift n)⟩

def Ident.shift (n : Nat) : Ident → Ident
  | .name text span => .name text (span.map (Span.shift n))
  | i => i

namespace Scan

variable {w v cs front rest : List Char} {place : Nat} {tokens more : List Token}

theorem Reads.shift (reads : Reads place front tokens rest) (n : Nat) :
    Reads (place + n) front (tokens.map (Token.shift n)) rest := by
  induction reads with
  | done => exact .done
  | @silent place w front rest tokens longest silent _ ih =>
    rw [Nat.add_right_comm] at ih
    exact .silent longest silent ih
  | @token place w front rest tokens a longest spelled _ ih =>
    rw [Nat.add_right_comm] at ih
    have first := Reads.token longest spelled ih
    rwa [Nat.add_right_comm place n w.length] at first

theorem eq_gap {r : Rule} {c : Char} (matched : r.Matches (c :: w)) (gap : Text.isGap c = true) : r = .gap :=
  matched.ofStart.symm.trans (Rule.ofStart_gap gap w)

theorem longest_gap (gaps : Rule.gap.Matches w) (stops : Stops Text.isGap rest) : Longest (w ++ rest) w := by
  refine ⟨List.prefix_append w rest, ⟨_, gaps⟩, fun r u before matched => ?_⟩
  by_contra longer
  obtain ⟨x, rfl⟩ := List.prefix_of_prefix_length_le (List.prefix_append w rest) before (by omega)
  obtain ⟨c, w, rfl⟩ := List.exists_cons_of_ne_nil gaps.1
  obtain rfl := eq_gap matched (gaps.2 c (by simp))
  cases x with
  | nil => simp at longer
  | cons d x =>
    obtain ⟨tail, rfl⟩ := (List.prefix_append_right_inj _).1 before
    have gap := matched.2 d (by simp)
    rw [stops d rfl] at gap
    cases gap

theorem Longest.stops_gap (longest : Longest (w ++ rest) w) (gaps : Rule.gap.Matches w) :
    Stops Text.isGap rest := by
  intro c head
  obtain ⟨tail, rfl⟩ := List.head?_eq_some_iff.1 head
  rw [← Bool.not_eq_true]
  intro gap
  have longer : Rule.gap.Matches (w ++ [c]) := by
    refine ⟨by simp, ?_⟩
    simpa [or_imp, forall_and, gap] using gaps.2
  have bound := longest.longest _ (w ++ [c]) ⟨tail, by simp⟩ longer
  simp only [List.length_append, List.length_singleton] at bound
  omega

theorem stops_of_other {r : Rule} (matched : r.Matches w) (other : r ≠ .gap) (rest : List Char) :
    Stops Text.isGap (w ++ rest) := by
  obtain ⟨c, w, rfl⟩ := List.exists_cons_of_ne_nil matched.ne_nil
  rintro _ ⟨⟩
  rw [← Bool.not_eq_true]
  exact fun gap => other (eq_gap matched gap)

theorem Reads.gap (gaps : Rule.gap.Matches w) {start : Nat} (reads : Reads start front tokens rest)
    (here : start = place + w.length) (ended : rest = []) : Reads place (w ++ front) tokens rest := by
  have apart : ∀ {r : Rule} {v tail : List Char}, r.Matches v → r ≠ .gap → front = v ++ tail →
      Reads place (w ++ front) tokens rest := by
    rintro r v tail matched other rfl
    refine .silent (longest_gap gaps ?_) (.inl gaps) (here ▸ reads)
    rw [List.append_assoc]
    exact stops_of_other matched other _
  cases reads with
  | done => exact .silent (longest_gap gaps (by simp [Stops, ended])) (.inl gaps) .done
  | @silent _ v front _ _ longest silent more =>
    rcases silent with more_gaps | comment
    · have both : Rule.gap.Matches (w ++ v) := by
        refine ⟨by simp [gaps.1], ?_⟩
        rw [List.forall_mem_append]
        exact ⟨gaps.2, more_gaps.2⟩
      rw [← List.append_assoc]
      refine .silent (longest_gap both (longest.stops_gap more_gaps)) (.inl both) ?_
      rwa [List.length_append, ← Nat.add_assoc, ← here]
    · exact apart comment nofun rfl
  | @token _ v front _ _ a longest spelled more =>
    obtain ⟨r, matched, lexeme⟩ := Rule.matches_of_spelled spelled
    refine apart matched ?_ rfl
    rintro rfl
    cases lexeme

theorem Rule.Matches.newline {r : Rule} (matched : r.Matches w) (inside : '\n' ∈ w) : r = .gap ∨ r = .string := by
  cases r with
  | gap => exact .inl rfl
  | string => exact .inr rfl
  | comment =>
    obtain ⟨body, rfl, free⟩ := matched
    simp [free] at inside
  | number =>
    obtain ⟨ds, digits, rfl | ⟨es, more, rfl⟩⟩ := matched
    · cases digits.2 _ inside
    · rcases List.mem_append.1 inside with whole | fraction
      · cases digits.2 _ whole
      · rcases List.mem_cons.1 fraction with point | fraction
        · cases point
        · cases more.2 _ fraction
  | word =>
    obtain ⟨c, parts, rfl, start, rest⟩ := matched
    rcases List.mem_cons.1 inside with rfl | later
    · cases start
    · cases rest _ later
  | punctuation =>
    obtain ⟨m, listed, rfl⟩ := matched
    have free : ∀ m ∈ Mark.punctuation, '\n' ∉ m.glyph.toList := by decide
    exact absurd inside (free m listed)

theorem Longest.extend (longest : Longest (w ++ front) w) (inner : front = [] → ¬ Rule.gap.Matches w)
    (rest : List Char) : Longest (w ++ (front ++ '\n' :: rest)) w := by
  refine ⟨List.prefix_append _ _, longest.matched, fun r v before matched => ?_⟩
  rw [← List.append_assoc] at before
  by_cases short : v.length ≤ (w ++ front).length
  · exact longest.longest r v (List.prefix_of_prefix_length_le before (List.prefix_append _ _) short) matched
  exfalso
  -- The match is longer than the first text, so that it has the line feed inside.
  obtain ⟨x, rfl⟩ := List.prefix_of_prefix_length_le (List.prefix_append _ _) before (by omega)
  obtain ⟨u, rfl⟩ : ∃ u, x = '\n' :: u := by
    cases x with
    | nil => simp at short
    | cons c u =>
      have same := List.cons_prefix_cons.1 ((List.prefix_append_right_inj _).1 before)
      exact ⟨u, by rw [same.1]⟩
  rcases matched.newline (by simp) with rfl | rfl
  · have gaps : Rule.gap.Matches (w ++ front) := by
      refine ⟨by simp [longest.ne_nil], fun c member => matched.2 c (List.mem_append_left _ member)⟩
    have bound := longest.longest _ _ (List.prefix_refl _) gaps
    have none : front = [] := by
      rw [← List.length_eq_zero_iff]
      simp only [List.length_append] at bound
      omega
    exact inner none (by simpa [none] using gaps)
  · -- The first text has closed the string already.
    obtain ⟨body, split, free⟩ := matched
    obtain ⟨s, own⟩ := longest.matched
    obtain ⟨c, w, rfl⟩ := List.exists_cons_of_ne_nil longest.ne_nil
    obtain rfl : c = '"' := by simpa using congrArg List.head? split
    obtain rfl : s = .string := own.ofStart.symm
    obtain ⟨quoted, same, -⟩ := own
    obtain rfl : w = quoted ++ ['"'] := by simpa using same
    have whole : quoted ++ ['"'] ++ (front ++ '\n' :: u) = body ++ ['"'] := by simpa using split
    have shorter : (quoted ++ ['"']).length ≤ body.length := by
      have lengths := congrArg List.length whole
      simp only [List.length_append, List.length_cons, List.length_nil] at lengths ⊢
      omega
    have closed : quoted ++ ['"'] <+: body :=
      List.prefix_of_prefix_length_le ⟨_, whole⟩ (List.prefix_append _ _) shorter
    exact free (closed.subset (by simp))

theorem Reads.join (reads : Reads place front tokens rest) (ended : rest = []) {last : List Char}
    (next : Reads (place + front.length) ('\n' :: last) more []) :
    Reads place (front ++ '\n' :: last) (tokens ++ more) [] := by
  induction reads with
  | done => simpa using next
  | @silent place w front rest tokens longest silent before ih =>
    subst ended
    rw [List.append_nil] at longest
    rw [List.length_append, ← Nat.add_assoc] at next
    have joined := ih rfl next
    by_cases final : front = [] ∧ Rule.gap.Matches w
    · rw [List.append_assoc]
      exact joined.gap final.2 rfl rfl
    · rw [List.append_assoc]
      refine .silent ?_ silent joined
      rw [List.append_nil]
      exact longest.extend (fun none gaps => final ⟨none, gaps⟩) last
  | @token place w front rest tokens a longest spelled before ih =>
    subst ended
    rw [List.append_nil] at longest
    rw [List.length_append, ← Nat.add_assoc] at next
    rw [List.append_assoc, List.cons_append]
    refine .token ?_ spelled (ih rfl next)
    rw [List.append_nil]
    refine longest.extend (fun _ gaps => ?_) last
    obtain ⟨r, matched, lexeme⟩ := Rule.matches_of_spelled spelled
    obtain rfl := matched.unique gaps
    cases lexeme

theorem scan_joined {first second : String} {tokens more : List Token} (scanned : scan first = .ok tokens)
    (next : scan second = .ok more) :
    scan (first ++ "\n" ++ second) = .ok (tokens ++ more.map (Token.shift (first.length + 1))) := by
  have reads := scan_ok_iff.1 scanned
  have shifted := (scan_ok_iff.1 next).shift (first.length + 1)
  rw [Nat.zero_add] at shifted
  have line : Rule.gap.Matches ['\n'] := ⟨nofun, by simp [Text.isGap]⟩
  have after : Reads (0 + first.toList.length) ('\n' :: second.toList) _ [] :=
    shifted.gap line (by simp [String.length_toList]) rfl
  rw [scan_ok_iff]
  simpa using reads.join rfl after

end Scan
end Lox
