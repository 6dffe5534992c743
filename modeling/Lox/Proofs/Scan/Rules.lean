import Mathlib.Data.List.TakeWhile
import Lox.Token.Scan

set_option autoImplicit false

namespace Lox.Scan

theorem isGap_iff {c : Char} : Text.isGap c = true ↔ (9 ≤ c.toNat ∧ c.toNat ≤ 13) ∨ c.toNat = 32 := by
  simp [Text.isGap]

theorem isDigit_iff {c : Char} : isDigit c = true ↔ 48 ≤ c.toNat ∧ c.toNat ≤ 57 := by
  simp [isDigit, Char.le_def, UInt32.le_iff_toNat_le]

theorem isWordStart_iff {c : Char} : isWordStart c = true ↔
    (65 ≤ c.toNat ∧ c.toNat ≤ 90) ∨ (97 ≤ c.toNat ∧ c.toNat ≤ 122) ∨ c.toNat = 95 := by
  simp [isWordStart, Char.le_def, UInt32.le_iff_toNat_le, ← Char.toNat_inj, or_assoc]

def Digits (ds : List Char) : Prop := ds ≠ [] ∧ ∀ d ∈ ds, isDigit d = true

namespace Rule

def Matches : Rule → List Char → Prop
  | gap, w => w ≠ [] ∧ ∀ c ∈ w, Text.isGap c = true
  | comment, w => ∃ body, w = '/' :: '/' :: body ∧ '\n' ∉ body
  | number, w => ∃ whole, Digits whole ∧ (w = whole ∨ ∃ fraction, Digits fraction ∧ w = whole ++ '.' :: fraction)
  | string, w => ∃ body, w = '"' :: (body ++ ['"']) ∧ '"' ∉ body
  | word, w => ∃ c rest, w = c :: rest ∧ isWordStart c = true ∧ ∀ d ∈ rest, isWordPart d = true
  | punctuation, w => ∃ m ∈ Mark.punctuation, w = m.glyph.toList

end Rule

section Runs

variable {p : Char → Bool} {cs run tail : List Char}

def Stops (p : Char → Bool) (tail : List Char) : Prop := ∀ c, tail.head? = some c → p c = false

theorem exists_run (p : Char → Bool) (cs : List Char) :
    ∃ run tail, cs = run ++ tail ∧ (∀ c ∈ run, p c = true) ∧ Stops p tail := by
  refine ⟨cs.takeWhile p, cs.dropWhile p, List.takeWhile_append_dropWhile.symm, ?_, ?_⟩
  · intro c member
    exact List.mem_takeWhile_imp member
  · intro c head
    obtain ⟨rest, split⟩ := List.head?_eq_some_iff.1 head
    have stop := List.head_dropWhile_not p (l := cs) (by simp [split])
    simpa [split] using stop

theorem takeWhile_run (inside : ∀ c ∈ run, p c = true) (stops : Stops p tail) :
    (run ++ tail).takeWhile p = run := by
  rw [List.takeWhile_append_of_pos inside]
  cases tail with
  | nil => simp
  | cons c rest => simp [stops c rfl]

theorem length_takeWhile_append (inside : ∀ c ∈ run, p c = true) (tail : List Char) :
    run.length ≤ ((run ++ tail).takeWhile p).length := by
  rw [List.takeWhile_append_of_pos inside, List.length_append]
  exact Nat.le_add_right _ _

theorem take_takeWhile (p : Char → Bool) (cs : List Char) :
    cs.take (cs.takeWhile p).length = cs.takeWhile p :=
  (List.prefix_iff_eq_take.1 (List.takeWhile_prefix p)).symm

theorem forall_ne_of_free {c : Char} {body : List Char} (free : c ∉ body) : ∀ d ∈ body, (d != c) = true := by
  intro d member
  simpa using ne_of_mem_of_not_mem member free

theorem digits_takeWhile {cs : List Char} (some : (cs.takeWhile isDigit).length ≠ 0) :
    Digits (cs.takeWhile isDigit) :=
  ⟨fun none => some (by simp [none]), fun _ member => List.mem_takeWhile_imp member⟩

end Runs

namespace Rule

def isMark : List Char → Bool
  | [c] => takesEqual c || isSingle c
  | [c, d] => takesEqual c && d == '='
  | _ => false

theorem isMark_iff {w : List Char} : isMark w = true ↔ punctuation.Matches w := by
  constructor
  · have singles : ∀ c ∈ ['!', '=', '<', '>', '(', ')', '\x7b', '\x7d', ',', '.', ';', '-', '+', '*', '/'],
        ∃ m ∈ Mark.punctuation, [c] = m.glyph.toList := by
      simp only [List.forall_mem_cons, List.not_mem_nil, false_implies, implies_true, and_true]
      decide
    have doubles : ∀ c ∈ ['!', '=', '<', '>'], ∃ m ∈ Mark.punctuation, [c, '='] = m.glyph.toList := by
      simp only [List.forall_mem_cons, List.not_mem_nil, false_implies, implies_true, and_true]
      decide
    intro marked
    match w with
    | [c] =>
      apply singles
      simpa [isMark, takesEqual, isSingle, or_assoc] using marked
    | [c, d] =>
      obtain ⟨takes, equal⟩ := Bool.and_eq_true_iff.1 marked
      rw [beq_iff_eq.1 equal]
      apply doubles
      simpa [takesEqual, or_assoc] using takes
  · rintro ⟨m, member, rfl⟩
    revert m
    decide

def isWord : List Char → Bool
  | c :: rest => isWordStart c && rest.all isWordPart
  | [] => false

theorem isWord_iff {w : List Char} : isWord w = true ↔ word.Matches w := by
  constructor
  · intro word
    match w with
    | c :: rest =>
      obtain ⟨start, parts⟩ := Bool.and_eq_true_iff.1 word
      exact ⟨c, rest, rfl, start, List.all_eq_true.1 parts⟩
  · rintro ⟨c, rest, rfl, start, parts⟩
    exact Bool.and_eq_true_iff.2 ⟨start, List.all_eq_true.2 parts⟩

theorem Matches.ne_nil {r : Rule} {w : List Char} (h : r.Matches w) : w ≠ [] := by
  cases r with
  | gap => exact h.1
  | comment =>
    obtain ⟨body, rfl, -⟩ := h
    simp
  | number =>
    obtain ⟨whole, digits, rfl | ⟨fraction, -, rfl⟩⟩ := h
    · exact digits.1
    · simp
  | string =>
    obtain ⟨body, rfl, -⟩ := h
    simp
  | word =>
    obtain ⟨c, rest, rfl, -⟩ := h
    simp
  | punctuation =>
    rintro rfl
    cases isMark_iff.2 h

theorem matches_reach (r : Rule) (cs : List Char) (some : r.reach cs ≠ 0) :
    ∃ w rest, cs = w ++ rest ∧ w.length = r.reach cs ∧ r.Matches w := by
  revert some
  -- one case for each line of the definition; the last is for those that reach nothing
  fun_cases reach r cs
  case case1 =>
    intro some
    refine ⟨_, _, List.takeWhile_append_dropWhile.symm, rfl, ?_, fun _ member => List.mem_takeWhile_imp member⟩
    exact fun none => some (by simp [none])
  case case2 cs =>
    intro _
    obtain ⟨run, tail, rfl, inside, stops⟩ := exists_run (· != '\n') cs
    rw [takeWhile_run inside stops]
    refine ⟨'/' :: '/' :: run, tail, rfl, Nat.add_comm run.length 2, run, rfl, fun member => ?_⟩
    simpa using inside _ member
  case case4 | case6 =>
    intro some
    exact ⟨_, _, List.takeWhile_append_dropWhile.symm, rfl, _, digits_takeWhile some, .inl rfl⟩
  case case5 rest fraction whole split digits =>
    intro _
    obtain ⟨someWhole, someFraction⟩ := not_or.1 digits
    have whole_rest : cs = cs.takeWhile isDigit ++ '.' :: rest := by
      rw [← split, ← take_takeWhile isDigit cs, List.take_append_drop]
    refine ⟨cs.takeWhile isDigit ++ '.' :: rest.takeWhile isDigit, rest.dropWhile isDigit, ?_, ?_, ?_⟩
    · simpa using whole_rest
    · simp [whole, fraction, Nat.add_assoc, Nat.add_comm 1]
    · exact ⟨_, digits_takeWhile someWhole, .inr ⟨_, digits_takeWhile someFraction, rfl⟩⟩
  case case7 cs inside shorter =>
    intro _
    obtain ⟨run, tail, rfl, free, stops⟩ := exists_run (· != '"') cs
    simp only [inside, takeWhile_run free stops] at shorter ⊢
    obtain ⟨c, tail, rfl⟩ := List.exists_cons_of_length_pos (l := tail) (by simpa using shorter)
    obtain rfl : c = '"' := by simpa using stops c rfl
    refine ⟨'"' :: (run ++ ['"']), tail, by simp, by simp, run, rfl, fun member => ?_⟩
    simpa using free _ member
  case case10 c cs start =>
    intro _
    refine ⟨c :: cs.takeWhile isWordPart, cs.dropWhile isWordPart, by simp, Nat.add_comm _ _, _, _, rfl, start, ?_⟩
    exact fun _ member => List.mem_takeWhile_imp member
  case case13 c tail takes =>
    intro _
    exact ⟨[c, '='], tail, rfl, rfl, isMark_iff.1 (by simp [isMark, takes])⟩
  case case14 c tail _ single =>
    intro _
    exact ⟨[c], '=' :: tail, rfl, rfl, isMark_iff.1 (by simp [isMark, single])⟩
  case case16 c tail _ single =>
    intro _
    exact ⟨[c], tail, rfl, rfl, isMark_iff.1 single⟩
  all_goals exact fun some => absurd rfl some

theorem length_le_reach_mark {w : List Char} (marked : isMark w = true) (rest : List Char) :
    w.length ≤ punctuation.reach (w ++ rest) := by
  match w with
  | [c] =>
    have single : (takesEqual c || isSingle c) = true := marked
    rcases rest with _ | ⟨d, rest⟩
    · simp [reach, single]
    · by_cases equal : d = '='
      · subst equal
        by_cases takes : takesEqual c = true
        · simp [reach, takes]
        · simp_all [reach]
      · simp [reach, equal, single]
  | [c, d] =>
    obtain ⟨takes, equal⟩ := Bool.and_eq_true_iff.1 marked
    obtain rfl := beq_iff_eq.1 equal
    simp [reach, takes]

theorem Matches.length_le_reach {r : Rule} {w : List Char} (h : r.Matches w) (rest : List Char) :
    w.length ≤ r.reach (w ++ rest) := by
  cases r with
  | gap => exact length_takeWhile_append h.2 rest
  | comment =>
    obtain ⟨body, rfl, free⟩ := h
    have longer := length_takeWhile_append (forall_ne_of_free free) rest
    simp only [List.cons_append, reach, List.length_cons]
    omega
  | number =>
    obtain ⟨whole, digits, rfl | ⟨fraction, more, rfl⟩⟩ := h
    · have longer := length_takeWhile_append digits.2 rest
      simp only [reach]
      split <;> try split
      all_goals omega
    · have longer := length_takeWhile_append more.2 rest
      have stops : Stops isDigit ('.' :: (fraction ++ rest)) := by
        rintro _ ⟨⟩
        rfl
      have some : 0 < whole.length := List.length_pos_iff.2 digits.1
      have someMore : 0 < fraction.length := List.length_pos_iff.2 more.1
      simp only [reach, List.append_assoc, List.cons_append, takeWhile_run digits.2 stops, List.drop_left]
      rw [if_neg (by omega)]
      simp only [List.length_append, List.length_cons]
      omega
  | string =>
    obtain ⟨body, rfl, free⟩ := h
    have stops : Stops (· != '"') ('"' :: rest) := by
      rintro _ ⟨⟩
      rfl
    simp [reach, takeWhile_run (forall_ne_of_free free) stops]
  | word =>
    obtain ⟨c, tail, rfl, start, parts⟩ := h
    have longer := length_takeWhile_append parts rest
    simp only [List.cons_append, reach, start, if_true, List.length_cons]
    omega
  | punctuation => exact length_le_reach_mark (isMark_iff.2 h) rest

def ofFirst (c : Char) : Rule :=
  if Text.isGap c then gap
  else if isDigit c then number
  else if c = '"' then string
  else if isWordStart c then word
  else punctuation

def ofStart : List Char → Rule
  | '/' :: '/' :: _ => comment
  | c :: _ => ofFirst c
  | [] => gap

theorem ofStart_cons {c : Char} (other : c.toNat ≠ 47) (w : List Char) : ofStart (c :: w) = ofFirst c := by
  have notSlash : c ≠ '/' := by
    rintro rfl
    exact other rfl
  simp [ofStart, notSlash]

theorem ofStart_gap {c : Char} (first : Text.isGap c = true) (w : List Char) : ofStart (c :: w) = gap := by
  have range := isGap_iff.1 first
  rw [ofStart_cons (by omega)]
  simp [ofFirst, first]

theorem Matches.ofStart {r : Rule} {w : List Char} (h : r.Matches w) : ofStart w = r := by
  cases r with
  | gap =>
    obtain ⟨some, gaps⟩ := h
    obtain ⟨c, w, rfl⟩ := List.exists_cons_of_ne_nil some
    exact ofStart_gap (gaps c (by simp)) w
  | comment =>
    obtain ⟨body, rfl, -⟩ := h
    rfl
  | number =>
    obtain ⟨whole, ⟨some, digits⟩, shape⟩ := h
    obtain ⟨c, whole, rfl⟩ := List.exists_cons_of_ne_nil some
    obtain ⟨tail, rfl⟩ : ∃ tail, w = c :: tail := by
      obtain rfl | ⟨fraction, -, rfl⟩ := shape <;> simp
    have first := digits c (by simp)
    have range := isDigit_iff.1 first
    have notGap : ¬ Text.isGap c = true := by
      rw [isGap_iff]
      omega
    rw [ofStart_cons (by omega)]
    simp [ofFirst, first, notGap]
  | string =>
    obtain ⟨body, rfl, -⟩ := h
    rfl
  | word =>
    obtain ⟨c, tail, rfl, start, -⟩ := h
    have range := isWordStart_iff.1 start
    have notGap : ¬ Text.isGap c = true := by
      rw [isGap_iff]
      omega
    have notDigit : ¬ isDigit c = true := by
      rw [isDigit_iff]
      omega
    have notQuote : c ≠ '"' := by
      rintro rfl
      simp at range
    rw [ofStart_cons (by omega)]
    simp [ofFirst, start, notGap, notDigit, notQuote]
  | punctuation =>
    obtain ⟨m, member, rfl⟩ := h
    revert m
    decide

theorem Matches.unique {r s : Rule} {w : List Char} (left : r.Matches w) (right : s.Matches w) : r = s :=
  left.ofStart.symm.trans right.ofStart

theorem mem_all (r : Rule) : r ∈ all := by
  cases r <;> decide

end Rule

structure Longest (cs w : List Char) : Prop where
  front : w <+: cs
  matched : ∃ r : Rule, r.Matches w
  longest : ∀ (r : Rule) (v : List Char), v <+: cs → r.Matches v → v.length ≤ w.length

namespace Longest

variable {cs v w : List Char}

theorem unique (left : Longest cs v) (right : Longest cs w) : v = w := by
  obtain ⟨r, matchedLeft⟩ := left.matched
  obtain ⟨s, matchedRight⟩ := right.matched
  have same : v.length = w.length :=
    Nat.le_antisymm (right.longest r v left.front matchedLeft) (left.longest s w right.front matchedRight)
  rw [List.prefix_iff_eq_take.1 left.front, List.prefix_iff_eq_take.1 right.front, same]

theorem ne_nil (h : Longest cs w) : w ≠ [] := by
  obtain ⟨r, matched⟩ := h.matched
  exact matched.ne_nil

end Longest

section Munch

variable {cs w : List Char}

theorem foldl_reach (cs : List Char) (rules : List Rule) (best : Rule × Nat) :
    let found := rules.foldl (fun best r => if best.2 < r.reach cs then (r, r.reach cs) else best) best
    best.2 ≤ found.2 ∧ (∀ r ∈ rules, r.reach cs ≤ found.2) ∧ (found = best ∨ found.2 = found.1.reach cs) := by
  induction rules generalizing best with
  | nil => simp
  | cons r rules ih =>
    simp only [List.foldl_cons, List.forall_mem_cons]
    by_cases farther : best.2 < r.reach cs
    · obtain ⟨more, reached, kept⟩ := ih (r, r.reach cs)
      simp only [farther, if_true]
      refine ⟨Nat.le_trans (Nat.le_of_lt farther) more, ⟨more, reached⟩, .inr ?_⟩
      rcases kept with same | own
      · rw [same]
      · exact own
    · obtain ⟨more, reached, kept⟩ := ih best
      simp only [farther, if_false]
      exact ⟨more, ⟨Nat.le_trans (Nat.le_of_not_lt farther) more, reached⟩, kept⟩

theorem reach_le_munch (r : Rule) (cs : List Char) : r.reach cs ≤ (munch cs).2 :=
  (foldl_reach cs Rule.all (.gap, 0)).2.1 r r.mem_all

theorem munch_reach (some : (munch cs).2 ≠ 0) : (munch cs).2 = (munch cs).1.reach cs := by
  rcases (foldl_reach cs Rule.all (.gap, 0)).2.2 with none | own
  · exact absurd (congrArg Prod.snd none) some
  · exact own

theorem munch_none : (munch cs).2 = 0 ↔ ∀ (r : Rule) (w : List Char), w <+: cs → ¬ r.Matches w := by
  constructor
  · rintro none r w ⟨rest, rfl⟩ matched
    have short := Nat.le_trans (matched.length_le_reach rest) (reach_le_munch r _)
    rw [none] at short
    exact matched.ne_nil (List.length_eq_zero_iff.1 (Nat.le_zero.1 short))
  · intro free
    by_contra some
    rw [munch_reach some] at some
    obtain ⟨w, rest, split, -, matched⟩ := Rule.matches_reach _ _ some
    exact free _ w ⟨rest, split.symm⟩ matched

theorem exists_longest (some : (munch cs).2 ≠ 0) :
    ∃ w, Longest cs w ∧ (munch cs).1.Matches w ∧ (munch cs).2 = w.length := by
  have own := munch_reach some
  obtain ⟨w, rest, split, length, matched⟩ := Rule.matches_reach (munch cs).1 cs (own ▸ some)
  refine ⟨w, ⟨⟨rest, split.symm⟩, ⟨_, matched⟩, ?_⟩, matched, own.trans length.symm⟩
  rintro r v ⟨tail, rfl⟩ other
  calc
    v.length ≤ r.reach (v ++ tail) := other.length_le_reach tail
    _ ≤ (munch (v ++ tail)).2 := reach_le_munch r _
    _ = w.length := by rw [own, length]

theorem Longest.munch (h : Longest cs w) : munch cs = (Rule.ofStart w, w.length) := by
  obtain ⟨r, matched⟩ := h.matched
  have some : (Scan.munch cs).2 ≠ 0 := fun none => munch_none.1 none r w h.front matched
  obtain ⟨v, found, own, length⟩ := exists_longest some
  obtain rfl := h.unique found
  rw [own.ofStart, ← length]

end Munch

inductive Spelled : List Char → Lexeme → Prop
  | punctuation {m : Mark} (listed : m ∈ Mark.punctuation) : Spelled m.glyph.toList (.mark m)
  | keyword {m : Mark} (listed : m ∈ Mark.keywords) : Spelled m.glyph.toList (.mark m)
  | identifier {w : List Char} (word : Rule.word.Matches w) (free : ∀ m ∈ Mark.keywords, m.glyph.toList ≠ w) :
      Spelled w (.identifier (.ofList w))
  | string {body : List Char} (free : '"' ∉ body) : Spelled ('"' :: (body ++ ['"'])) (.string (.ofList body))
  | whole {ds : List Char} (digits : Digits ds) : Spelled ds (.number (Decimal.ofDigits ds []))
  | fraction {ds es : List Char} (digits : Digits ds) (more : Digits es) :
      Spelled (ds ++ '.' :: es) (.number (Decimal.ofDigits ds es))

def Silent (w : List Char) : Prop := Rule.gap.Matches w ∨ Rule.comment.Matches w

namespace Rule

variable {r : Rule} {w : List Char} {a : Lexeme}

theorem find?_glyph {marks : List Mark} (distinct : (marks.map Mark.glyph).Nodup) {m : Mark} (listed : m ∈ marks) :
    marks.find? (·.glyph == m.glyph) = some m := by
  induction marks with
  | nil => cases listed
  | cons first marks ih =>
    simp only [List.map_cons, List.nodup_cons] at distinct
    rcases List.mem_cons.1 listed with rfl | later
    · simp
    · have other : first.glyph ≠ m.glyph := fun same => distinct.1 (same ▸ List.mem_map_of_mem later)
      rw [List.find?_cons_of_neg (by simpa using other)]
      exact ih distinct.2 later

theorem lexeme?_whole {ds : List Char} (digits : Digits ds) :
    number.lexeme? ds = some (.number (Decimal.ofDigits ds [])) := by
  have front := List.takeWhile_eq_self_iff.2 digits.2
  have back := List.dropWhile_eq_nil_iff.2 digits.2
  simp [lexeme?, front, back]

theorem lexeme?_fraction {ds es : List Char} (digits : Digits ds) :
    number.lexeme? (ds ++ '.' :: es) = some (.number (Decimal.ofDigits ds es)) := by
  have stops : Stops isDigit ('.' :: es) := by
    rintro _ ⟨⟩
    rfl
  have rest : (ds ++ '.' :: es).dropWhile isDigit = '.' :: es := by
    rw [List.dropWhile_append_of_pos digits.2]
    rfl
  simp [lexeme?, takeWhile_run digits.2 stops, rest]

theorem lexeme?_string (body : List Char) :
    string.lexeme? ('"' :: (body ++ ['"'])) = some (.string (.ofList body)) := by
  simp [lexeme?]

theorem matches_of_spelled (h : Spelled w a) : ∃ r : Rule, r.Matches w ∧ r.lexeme? w = some a := by
  cases h with
  | @punctuation m listed =>
    refine ⟨punctuation, ⟨m, listed, rfl⟩, ?_⟩
    simp only [lexeme?, String.ofList_toList, find?_glyph (by decide) listed, Option.map_some]
  | @keyword m listed =>
    have words : ∀ m ∈ Mark.keywords, isWord m.glyph.toList = true := by decide
    refine ⟨word, isWord_iff.1 (words m listed), ?_⟩
    simp only [lexeme?, String.ofList_toList, find?_glyph (by decide) listed]
  | identifier named free =>
    refine ⟨word, named, ?_⟩
    have none : Mark.keywords.find? (·.glyph == String.ofList w) = none := by
      rw [List.find?_eq_none]
      intro m listed same
      apply free m listed
      simp [beq_iff_eq.1 same]
    simp only [lexeme?, none]
  | @string body free => exact ⟨string, ⟨body, rfl, free⟩, lexeme?_string body⟩
  | whole digits => exact ⟨number, ⟨w, digits, .inl rfl⟩, lexeme?_whole digits⟩
  | @fraction ds es digits more =>
    exact ⟨number, ⟨ds, digits, .inr ⟨es, more, rfl⟩⟩, lexeme?_fraction digits⟩

theorem Matches.spelled (h : r.Matches w) (token : r.lexeme? w = some a) : Spelled w a := by
  cases r with
  | gap => cases token
  | comment => cases token
  | number =>
    obtain ⟨ds, digits, rfl | ⟨es, more, rfl⟩⟩ := h
    · rw [lexeme?_whole digits] at token
      cases token
      exact .whole digits
    · rw [lexeme?_fraction digits] at token
      cases token
      exact .fraction digits more
  | string =>
    obtain ⟨body, rfl, free⟩ := h
    rw [lexeme?_string] at token
    cases token
    exact .string free
  | word =>
    simp only [lexeme?] at token
    split at token
    next m found =>
      cases token
      have glyph : m.glyph = String.ofList w := by simpa using List.find?_some found
      have spelled := Spelled.keyword (List.mem_of_find?_eq_some found)
      rwa [glyph, String.toList_ofList] at spelled
    next free =>
      cases token
      refine .identifier h fun m listed same => ?_
      have other := List.find?_eq_none.1 free m listed
      simp [← same] at other
  | punctuation =>
    obtain ⟨m, listed, rfl⟩ := h
    simp only [lexeme?, String.ofList_toList, find?_glyph (by decide) listed, Option.map_some] at token
    cases token
    exact .punctuation listed

theorem Matches.silent (h : r.Matches w) (none : r.lexeme? w = none) : Silent w := by
  cases r with
  | gap => exact .inl h
  | comment => exact .inr h
  | number => cases none
  | string => cases none
  | word =>
    simp only [lexeme?] at none
    split at none <;> cases none
  | punctuation =>
    obtain ⟨m, listed, rfl⟩ := h
    simp only [lexeme?, String.ofList_toList, find?_glyph (by decide) listed, Option.map_some] at none
    cases none

end Rule

theorem Spelled.unique {w : List Char} {a b : Lexeme} (left : Spelled w a) (right : Spelled w b) : a = b := by
  obtain ⟨r, matchedLeft, tokenLeft⟩ := Rule.matches_of_spelled left
  obtain ⟨s, matchedRight, tokenRight⟩ := Rule.matches_of_spelled right
  obtain rfl := matchedLeft.unique matchedRight
  exact Option.some.inj (tokenLeft.symm.trans tokenRight)

end Lox.Scan
