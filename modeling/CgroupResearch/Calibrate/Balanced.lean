import CgroupResearch.Calibrate.Document

/-!
# The scan for the closing bracket

`scan_balanced` of `calibration.c` looks for the bracket that closes the one it starts at. It
counts one kind of brackets only, and those outside of strings.

On a JSON text this is enough, since brackets of the other kind come in pairs too; what it takes
is the value it starts at. On any text, what it takes is the shortest part from there with as
many closing brackets as opening ones (`scanBalanced_exact`).

* `outsideStrings`: the characters outside of strings, and `bracketNet`: the opening brackets
  among them less the closing ones;
* `scanBalancedLoop_cons`: what the scan does at a character;
* `scanBalancedLoop_spec`: where it stops;
* `scanBalancedInt_eq`: that the depth is an `int` makes no difference on a text that fits one.
-/

namespace CgroupResearch

open CString PyJson

open Json (Spells Lead)

/-! ## The program -/

/-- The loop of `scan_balanced`, with the depth as an `int`. -/
def scanBalancedIntLoop (openCh closeCh : Char) :
    (depth : Int32) → (inString escaped : Bool) → List Char → Option (List Char × List Char)
  | _, _, _, [] => none
  | depth, inString, escaped, ch :: cs =>
    let next := fun depth inString escaped =>
      (scanBalancedIntLoop openCh closeCh depth inString escaped cs).map fun r => (ch :: r.1, r.2)
    if inString then
      if escaped then next depth true false
      else if ch = '\\' then next depth true true
      else if ch = '"' then next depth false false
      else next depth true false
    else if ch = '"' then next depth true escaped
    else if ch = openCh then next (depth + 1) false escaped
    else if ch = closeCh then
      if depth - 1 = 0 then some ([ch], cs) else next (depth - 1) false escaped
    else next depth false escaped

/-- `scan_balanced`, with the depth as an `int`. -/
def scanBalancedInt («open» rest : List Char) (openCh closeCh : Char) : Option JsonRange :=
  if «open».head? ≠ some openCh then none
  else
    (scanBalancedIntLoop openCh closeCh 0 false false «open»).map fun r => ⟨r.1, r.2 ++ rest⟩

/-! ## Balanced texts -/

/-- The characters of a text outside of its strings. A string ends at the first quote that stands
    behind no backslash, or behind one that is itself escaped. The text may start in a string, and
    behind a backslash there. -/
def outsideStrings : (inString escaped : Bool) → List Char → List Char
  | _, _, [] => []
  | false, _, ch :: cs =>
    if ch = '"' then outsideStrings true false cs else ch :: outsideStrings false false cs
  | true, true, _ :: cs => outsideStrings true false cs
  | true, false, ch :: cs =>
    if ch = '\\' then outsideStrings true true cs
    else if ch = '"' then outsideStrings false false cs
    else outsideStrings true false cs

/-- The opening brackets outside of strings, less the closing ones. -/
def bracketNet (o c : Char) (inString escaped : Bool) (t : List Char) : ℤ :=
  (outsideStrings inString escaped t).count o - (outsideStrings inString escaped t).count c

/-- A text from an opening bracket to the one that closes it: outside of strings, there are as
    many closing brackets as opening ones, and fewer in any part of it from its start. -/
structure Enclosed (o c : Char) (t : List Char) : Prop where
  head : t.head? = some o
  last : t.getLast? = some c
  balanced : (outsideStrings false false t).count c = (outsideStrings false false t).count o
  proper : ∀ p, p <+: t → p ≠ [] → p ≠ t →
    (outsideStrings false false p).count c < (outsideStrings false false p).count o

/-! ## Steps of the scan -/

/-- The depth and the state behind a character, unless the scan stops there. -/
def scanTurn (o c : Char) (depth : ℤ) (inString escaped : Bool) (ch : Char) :
    Option (ℤ × Bool × Bool) :=
  if inString then
    if escaped then some (depth, true, false)
    else if ch = '\\' then some (depth, true, true)
    else if ch = '"' then some (depth, false, false)
    else some (depth, true, false)
  else if ch = '"' then some (depth, true, escaped)
  else if ch = o then some (depth + 1, false, escaped)
  else if ch = c then if depth - 1 = 0 then none else some (depth - 1, false, escaped)
  else some (depth, false, escaped)

section

variable {o c : Char}

/-- The scan stops at a character, or goes on behind it. -/
theorem scanBalancedLoop_cons (depth : ℤ) (inString escaped : Bool) (ch : Char) (cs : List Char) :
    scanBalancedLoop o c depth inString escaped (ch :: cs) =
      (scanTurn o c depth inString escaped ch).elim (some ([ch], cs)) fun s =>
        (scanBalancedLoop o c s.1 s.2.1 s.2.2 cs).map fun r => (ch :: r.1, r.2) := by
  rw [scanBalancedLoop, scanTurn]
  dsimp only
  split_ifs <;> rfl

/-- It stops at a closing bracket, at the depth one. -/
theorem scanTurn_eq_none {depth : ℤ} {inString escaped : Bool} {ch : Char}
    (h : scanTurn o c depth inString escaped ch = none) :
    inString = false ∧ ch ≠ '"' ∧ ch ≠ o ∧ ch = c ∧ depth = 1 := by
  rw [scanTurn] at h
  split_ifs at h with hin _ _ _ hq ho hc hdepth
  exact ⟨by simpa using hin, hq, ho, hc, by omega⟩

/-- A character outside of strings. -/
theorem bracketNet_outside {ch : Char} (hq : ch ≠ '"') (escaped : Bool) (p : List Char) :
    bracketNet o c false escaped (ch :: p) =
      ((if ch = o then 1 else 0) - if ch = c then 1 else 0) + bracketNet o c false false p := by
  rw [bracketNet, outsideStrings, if_neg hq, bracketNet, List.count_cons, List.count_cons]
  simp only [beq_iff_eq]
  split_ifs <;> push_cast <;> ring

/-- What a character adds to the depth. -/
theorem scanTurn_eq_some (hne : c ≠ o) {depth depth' : ℤ}
    {inString escaped inString' escaped' : Bool} {ch : Char}
    (hescaped : inString = false → escaped = false)
    (h : scanTurn o c depth inString escaped ch = some (depth', inString', escaped')) :
    (inString' = false → escaped' = false) ∧ (0 < depth → 0 < depth') ∧
      ∀ p, depth + bracketNet o c inString escaped (ch :: p) =
        depth' + bracketNet o c inString' escaped' p := by
  cases inString with
  | true =>
    -- inside of a string the depth stays as it is
    have hsame : depth' = depth ∧ (inString' = false → escaped' = false) ∧
        ∀ p, outsideStrings true escaped (ch :: p) = outsideStrings inString' escaped' p := by
      rw [scanTurn, if_pos rfl] at h
      cases escaped with
      | true =>
        cases h
        exact ⟨rfl, Bool.noConfusion, fun p => rfl⟩
      | false =>
        rw [if_neg Bool.false_ne_true] at h
        split_ifs at h with hb hq <;> cases h <;> simp [outsideStrings, *]
    obtain ⟨rfl, hescaped', houtside⟩ := hsame
    refine ⟨hescaped', id, fun p => ?_⟩
    rw [bracketNet, houtside, ← bracketNet]
  | false =>
    obtain rfl := hescaped rfl
    rw [scanTurn, if_neg Bool.false_ne_true] at h
    by_cases hq : ch = '"'
    · subst hq
      rw [if_pos rfl] at h
      cases h
      exact ⟨fun _ => rfl, id, fun p => rfl⟩
    · simp only [bracketNet_outside hq]
      rw [if_neg hq] at h
      split_ifs at h with ho hc hdepth <;> cases h
      · subst ho
        refine ⟨fun _ => rfl, fun hd => by omega, fun p => ?_⟩
        rw [if_pos rfl, if_neg hne.symm]
        ring
      · subst hc
        refine ⟨fun _ => rfl, fun hd => by omega, fun p => ?_⟩
        rw [if_neg hne, if_pos rfl]
        ring
      · refine ⟨fun _ => rfl, id, fun p => ?_⟩
        rw [if_neg ho, if_neg hc]
        ring

/-! ## Runs of the scan -/

/-- What the scan stops at is no opening bracket; and it needs one, which a quote is not. -/
theorem of_scanBalancedLoop {depth : ℤ} {inString escaped : Bool} {s : List Char}
    {r : List Char × List Char} (h : scanBalancedLoop o c depth inString escaped s = some r) :
    c ≠ o ∧ (o = '"' → 0 < depth) := by
  induction s generalizing depth inString escaped r with
  | nil => cases h
  | cons ch cs ih =>
    rw [scanBalancedLoop_cons] at h
    cases hturn : scanTurn o c depth inString escaped ch with
    | none =>
      obtain ⟨-, -, ho, rfl, rfl⟩ := scanTurn_eq_none hturn
      exact ⟨ho, fun _ => Int.one_pos⟩
    | some s =>
      rw [hturn, Option.elim_some] at h
      obtain ⟨r', hr', -⟩ := Option.map_eq_some_iff.1 h
      obtain ⟨hne, hpos⟩ := ih hr'
      refine ⟨hne, fun hquote => (hpos hquote).trans_le ?_⟩
      -- a quote is not counted, so the depth does not grow
      subst hquote
      rw [scanTurn] at hturn
      split_ifs at hturn <;> cases hturn
      all_goals
        dsimp only
        omega

/-- Where the scan stops, from a depth above zero: at the closing bracket that brings it to
    zero, the first that does. -/
theorem scanBalancedLoop_spec {depth : ℤ} (hdepth : 0 < depth) {inString escaped : Bool}
    (hescaped : inString = false → escaped = false) {s t after : List Char}
    (h : scanBalancedLoop o c depth inString escaped s = some (t, after)) :
    s = t ++ after ∧ t.getLast? = some c ∧ depth + bracketNet o c inString escaped t = 0 ∧
      ∀ p, p <+: t → p ≠ t → 0 < depth + bracketNet o c inString escaped p := by
  have hne := (of_scanBalancedLoop h).1
  induction s generalizing depth inString escaped t with
  | nil => cases h
  | cons ch cs ih =>
    have hnil : 0 < depth + bracketNet o c inString escaped [] := by
      simpa [bracketNet, outsideStrings] using hdepth
    rw [scanBalancedLoop_cons] at h
    cases hturn : scanTurn o c depth inString escaped ch with
    | none =>
      rw [hturn] at h
      obtain ⟨rfl, rfl⟩ := Prod.mk.inj (Option.some.inj h)
      obtain ⟨rfl, hq, ho, rfl, rfl⟩ := scanTurn_eq_none hturn
      refine ⟨rfl, rfl, ?_, fun p hp hproper => ?_⟩
      · rw [bracketNet_outside hq, if_neg ho, if_pos rfl]
        simp [bracketNet, outsideStrings]
      · rcases List.prefix_cons_iff.1 hp with rfl | ⟨p', rfl, hp'⟩
        · exact hnil
        · rw [List.prefix_nil.1 hp'] at hproper
          exact absurd rfl hproper
    | some s =>
      obtain ⟨depth', inString', escaped'⟩ := s
      rw [hturn, Option.elim_some] at h
      obtain ⟨⟨t', after'⟩, hr, heq⟩ := Option.map_eq_some_iff.1 h
      obtain ⟨rfl, rfl⟩ := Prod.mk.inj heq
      obtain ⟨hescaped', hpos, hnet⟩ := scanTurn_eq_some hne hescaped hturn
      obtain ⟨rfl, hlast, hzero, hproper⟩ := ih (hpos hdepth) hescaped' hr
      refine ⟨rfl, ?_, by rw [hnet, hzero], fun p hp hp' => ?_⟩
      · rw [List.getLast?_cons, hlast]
        rfl
      · rcases List.prefix_cons_iff.1 hp with rfl | ⟨p', rfl, hinit⟩
        · exact hnil
        · rw [hnet]
          exact hproper p' hinit fun h' => hp' (by rw [h'])

/-- What the scan takes of any text. -/
theorem scanBalanced_some {«open» rest : List Char} {range : JsonRange}
    (h : scanBalanced «open» rest o c = some range) :
    ∃ after, «open» = range.text ++ after ∧ range.rest = after ++ rest ∧
      Enclosed o c range.text := by
  rw [scanBalanced] at h
  split_ifs at h with hhead
  rw [not_not] at hhead
  obtain ⟨⟨t, after⟩, hloop, rfl⟩ := Option.map_eq_some_iff.1 h
  obtain ⟨cs, rfl⟩ : ∃ cs, «open» = o :: cs := by
    cases «open» with
    | nil => cases hhead
    | cons ch cs => exact ⟨cs, by rw [Option.some.inj hhead]⟩
  obtain ⟨hne, hquote⟩ := of_scanBalancedLoop hloop
  have hq : o ≠ '"' := fun ho => absurd (hquote ho) (lt_irrefl 0)
  -- the bracket that the scan starts at makes the depth one
  have hturn : scanTurn o c 0 false false o = some (1, false, false) := by
    rw [scanTurn, if_neg Bool.false_ne_true, if_neg hq, if_pos rfl]
    rfl
  rw [scanBalancedLoop_cons, hturn, Option.elim_some] at hloop
  obtain ⟨⟨t', after'⟩, hr, heq⟩ := Option.map_eq_some_iff.1 hloop
  obtain ⟨rfl, rfl⟩ := Prod.mk.inj heq
  obtain ⟨-, -, hnet⟩ := scanTurn_eq_some hne (fun _ => rfl) hturn
  obtain ⟨rfl, hlast, hzero, hproper⟩ := scanBalancedLoop_spec Int.one_pos (fun _ => rfl) hr
  refine ⟨after', rfl, rfl, rfl, ?_, ?_, fun p hp hp0 hp' => ?_⟩
  · rw [List.getLast?_cons, hlast]
    rfl
  · have hall := hnet t'
    rw [hzero, bracketNet] at hall
    dsimp only
    omega
  · rcases List.prefix_cons_iff.1 hp with rfl | ⟨p', rfl, hinit⟩
    · exact absurd rfl hp0
    · have hpos := hproper p' hinit fun h' => hp' (by rw [h'])
      rw [← hnet, bracketNet] at hpos
      omega

end

/-! ## The depth as an `int` -/

section

variable {o c : Char}

theorem toInt_add_one (depth : Int32) (h : depth.toInt < 2 ^ 31 - 1) :
    (depth + 1).toInt = depth.toInt + 1 := by
  have hle := depth.le_toInt
  rw [Int32.toInt_add, Int32.toInt_one]
  exact Int.bmod_eq_of_le (by omega) (by omega)

theorem toInt_sub_one (depth : Int32) (h : -2 ^ 31 < depth.toInt) :
    (depth - 1).toInt = depth.toInt - 1 := by
  have hlt := depth.toInt_lt
  rw [Int32.toInt_sub, Int32.toInt_one]
  exact Int.bmod_eq_of_le (by omega) (by omega)

/-- The depth moves by one a character, and does not leave the range of an `int` on a text that is
    shorter. -/
theorem scanBalancedIntLoop_eq (depth : Int32) (inString escaped : Bool) (s : List Char)
    (hlo : -2 ^ 31 < depth.toInt - s.length) (hhi : depth.toInt + s.length < 2 ^ 31) :
    scanBalancedIntLoop o c depth inString escaped s =
      scanBalancedLoop o c depth.toInt inString escaped s := by
  induction s generalizing depth inString escaped with
  | nil => rfl
  | cons ch cs ih =>
    rw [List.length_cons] at hlo hhi
    push_cast at hlo hhi
    have hadd := toInt_add_one depth (by omega)
    have hsub := toInt_sub_one depth (by omega)
    have hzero : depth - 1 = 0 ↔ depth.toInt - 1 = 0 := by
      rw [← hsub, ← Int32.toInt_inj, Int32.toInt_zero]
    have hsame := fun inString escaped => ih depth inString escaped (by omega) (by omega)
    have hinc := ih (depth + 1) false escaped (by omega) (by omega)
    have hdec := ih (depth - 1) false escaped (by omega) (by omega)
    rw [hadd] at hinc
    rw [hsub] at hdec
    rw [scanBalancedIntLoop, scanBalancedLoop]
    simp only [hsame, hinc, hdec, hzero]

/-- On a text that is shorter than `INT_MAX` the depth is a number. -/
theorem scanBalancedInt_eq {«open» : List Char} (rest : List Char) (h : «open».length < 2 ^ 31) :
    scanBalancedInt «open» rest o c = scanBalanced «open» rest o c := by
  rw [scanBalancedInt, scanBalanced, scanBalancedIntLoop_eq]
  · rfl
  · rw [Int32.toInt_zero]
    omega
  · rw [Int32.toInt_zero]
    omega

end

/-- From the first byte of a JSON list or object, whatever follows, `scan_balanced` takes just
    its text. And whatever text it succeeds on, it takes a part that lies in the text, from the
    byte it starts at to a closing bracket, with as many closing brackets as opening ones outside
    of strings, and fewer before. It does so with the depth in an `int`, of which no text with
    fewer bytes than its values leaves the range. -/
theorem scanBalanced_exact (o c : Char) (text rest : List Char) :
    (∀ v t w, Brackets o c → Spells (.value v) t → v.Lead o → text = t ++ w →
      scanBalanced text rest o c = some ⟨t, w ++ rest⟩) ∧
    (∀ range, scanBalanced text rest o c = some range →
      ∃ after, text = range.text ++ after ∧ range.rest = after ++ rest ∧ Enclosed o c range.text) ∧
    (text.length < 2 ^ 31 → scanBalancedInt text rest o c = scanBalanced text rest o c) := by
  refine ⟨?_, fun range => scanBalanced_some, scanBalancedInt_eq rest⟩
  rintro v t w hb ht hlead rfl
  exact scanBalanced_spells hb ht hlead w rest

/-- An object with a quote and a closing bracket in its key, and what follows it. -/
theorem scanBalanced_exact_key :
    scanBalanced "\x7b\"\\\"\x7d\":[]\x7d,\x7d".toList [] '{' '}' =
        some ⟨"\x7b\"\\\"\x7d\":[]\x7d".toList, ",\x7d".toList⟩ ∧
      Enclosed '{' '}' "\x7b\"\\\"\x7d\":[]\x7d".toList := by
  have hkey : Json.StrBody "\\\"\x7d".toList :=
    .escape (by decide) (.plain (by decide) .nil)
  have hws : Json.Ws [] := List.forall_mem_nil _
  have hspells : Spells (.value (.obj [("\\\"\x7d".toList, .arr [])]))
      "\x7b\"\\\"\x7d\":[]\x7d".toList :=
    .obj (.member hws hkey hws hws (.arr (.noItems hws)) hws .lastMember)
  obtain ⟨htakes, hencloses, -⟩ :=
    scanBalanced_exact '{' '}' "\x7b\"\\\"\x7d\":[]\x7d,\x7d".toList []
  have hscan := htakes _ _ ",\x7d".toList .dict hspells rfl rfl
  obtain ⟨after, -, -, henclosed⟩ := hencloses _ hscan
  exact ⟨hscan, henclosed⟩

end CgroupResearch
