import StorySuite.Proofs.Story.Scenarios
import StorySuite.Proofs.Text.Quoted

/-!
# The names of stories as they are spelled

A name can be spelled in many ways: with escapes, or as a string.  A story is registered under the
spelling of its name, which is the name itself when it is spelled plainly.

* `Spelling.value? t`      the string that a literal stands for, as UTF-16 units;
* `Spelling.name? t`       the name that a spelling stands for;
* `value?_encode`          **a registered literal stands for the text that it was made of**;
* `name?_eq_iff`           **a spelling stands for itself when it is plain, and only then**;
* `Scenario.registered_spelling`   what stories are registered under;
* `Scenario.registered_quotes`     a name that is registered with its quotes.
-/

namespace StorySuite

namespace Spelling

/-! ## what spellings stand for -/

/-- the UTF-16 units of a code point -/
def unitsOf (n : Nat) : List Nat :=
  if n < 0x10000 then [n] else [0xd800 + (n - 0x10000) / 0x400, 0xdc00 + (n - 0x10000) % 0x400]

/-- the UTF-16 units of a text -/
def utf16 (t : Text) : List Nat := t.flatMap fun c => unitsOf c.toNat

def hexDigit? (c : Char) : Option Nat :=
  if '0' ≤ c && c ≤ '9' then some (c.toNat - '0'.toNat)
  else if 'a' ≤ c && c ≤ 'f' then some (c.toNat - 'a'.toNat + 10)
  else if 'A' ≤ c && c ≤ 'F' then some (c.toNat - 'A'.toNat + 10)
  else none

/-- the number of hexadecimal digits, from `n` on -/
def hexFrom? (n : Nat) : Text → Option Nat
  | [] => some n
  | c :: t => (hexDigit? c).bind fun d => hexFrom? (16 * n + d) t

/-- the units of what stands behind `\u`, and the text behind it -/
def unicode? : Text → Option (List Nat × Text)
  | '\x7b' :: t =>
    match t.dropWhile (· != '\x7d') with
    | _ :: rest =>
      let digits := t.takeWhile (· != '\x7d')
      if digits.isEmpty then none
      else (hexFrom? 0 digits).bind fun n => if n ≤ 0x10ffff then some (unitsOf n, rest) else none
    | [] => none
  | a :: b :: c :: d :: rest => (hexFrom? 0 [a, b, c, d]).map fun n => ([n], rest)
  | _ => none

/-- the unit of a character behind a backslash that stands for another one -/
def single? (c : Char) : Option Nat :=
  if c = 'b' then some 8
  else if c = 't' then some 9
  else if c = 'n' then some 10
  else if c = 'v' then some 11
  else if c = 'f' then some 12
  else if c = 'r' then some 13
  else none

def endsLine (c : Char) : Bool :=
  c = '\n' || c = '\r' || c.toNat = 0x2028 || c.toNat = 0x2029

/-- the units of what stands behind a backslash in a string, and the text behind it -/
def escaped? : Text → Option (List Nat × Text)
  | 'u' :: t => unicode? t
  | 'x' :: a :: b :: t => (hexFrom? 0 [a, b]).map fun n => ([n], t)
  | '\r' :: '\n' :: t => some ([], t)
  | c :: t =>
    if c = 'x' then none
    else if endsLine c then some ([], t)
    else if c.isDigit then
      if c = '0' && !(t.head?.any Char.isDigit) then some ([0], t) else none
    else match single? c with
      | some n => some ([n], t)
      | none => some (unitsOf c.toNat, t)
  | [] => none

/-! ## how long they are -/

theorem one_le_length_unitsOf (n : Nat) : 1 ≤ (unitsOf n).length := by
  unfold unitsOf
  split <;> simp

theorem length_unitsOf_le (n : Nat) : (unitsOf n).length ≤ 2 := by
  unfold unitsOf
  split <;> simp

theorem utf16_cons (c : Char) (t : Text) : utf16 (c :: t) = unitsOf c.toNat ++ utf16 t :=
  List.flatMap_cons

theorem utf16_append (s t : Text) : utf16 (s ++ t) = utf16 s ++ utf16 t := List.flatMap_append

theorem length_le_utf16 (t : Text) : t.length ≤ (utf16 t).length := by
  induction t with
  | nil => exact Nat.le_refl 0
  | cons c t ih =>
    have h := one_le_length_unitsOf c.toNat
    rw [utf16_cons, List.length_append, List.length_cons]
    omega

/-- an escape is longer than what it stands for -/
theorem length_unicode? {t rest : Text} {u : List Nat} (h : unicode? t = some (u, rest)) :
    u.length + (utf16 rest).length < (utf16 t).length := by
  unfold unicode? at h
  split at h
  · next t =>
    split at h
    · next c rest' hd =>
      simp only at h
      split at h
      · cases h
      · next hne =>
        obtain ⟨n, -, hn⟩ := Option.bind_eq_some_iff.mp h
        split at hn
        · obtain ⟨rfl, rfl⟩ : unitsOf n = u ∧ rest' = rest := by simpa using hn
          have hsplit : t.takeWhile (· != '\x7d') ++ c :: rest' = t := by
            rw [← hd]
            exact List.takeWhile_append_dropWhile
          have hdigits := length_le_utf16 (t.takeWhile (· != '\x7d'))
          have hpos : 0 < (t.takeWhile (· != '\x7d')).length :=
            List.length_pos_iff.mpr fun e => hne (by rw [e]; rfl)
          have hu := length_unitsOf_le n
          have hc := one_le_length_unitsOf c.toNat
          have hb := one_le_length_unitsOf ('\x7b' : Char).toNat
          rw [← hsplit, utf16_cons, utf16_append, utf16_cons]
          simp only [List.length_append]
          omega
        · cases hn
    · cases h
  · next a b c d rest' _ =>
    obtain ⟨n, -, hn⟩ := Option.map_eq_some_iff.mp h
    obtain ⟨rfl, rfl⟩ : [n] = u ∧ rest' = rest := by simpa using hn
    have ha := one_le_length_unitsOf a.toNat
    have hb := one_le_length_unitsOf b.toNat
    simp only [utf16_cons, List.length_append, List.length_singleton]
    omega
  · cases h

theorem length_escaped? {t rest : Text} {u : List Nat} (h : escaped? t = some (u, rest)) :
    u.length + (utf16 rest).length ≤ (utf16 t).length := by
  unfold escaped? at h
  split at h
  · have hlt := length_unicode? h
    rw [utf16_cons, List.length_append]
    omega
  · next a b t =>
    obtain ⟨n, -, hn⟩ := Option.map_eq_some_iff.mp h
    obtain ⟨rfl, rfl⟩ : [n] = u ∧ t = rest := by simpa using hn
    have hx := one_le_length_unitsOf ('x' : Char).toNat
    simp only [utf16_cons, List.length_append, List.length_singleton]
    omega
  · next t =>
    obtain ⟨rfl, rfl⟩ : [] = u ∧ t = rest := by simpa using h
    simp only [utf16_cons, List.length_append, List.length_nil]
    omega
  · next c t _ _ _ =>
    have hc := one_le_length_unitsOf c.toNat
    have key : ∀ v, some (v, t) = some (u, rest) → v.length ≤ (unitsOf c.toNat).length →
        u.length + (utf16 rest).length ≤ (utf16 (c :: t)).length := by
      intro v hv hle
      obtain ⟨rfl, rfl⟩ : v = u ∧ t = rest := by simpa using hv
      rw [utf16_cons, List.length_append]
      omega
    split at h
    · cases h
    · split at h
      · exact key _ h (Nat.zero_le _)
      · split at h
        · split at h
          · exact key _ h hc
          · cases h
        · split at h
          · exact key _ h hc
          · exact key _ h (Nat.le_refl _)
  · cases h

/-! ## strings and names -/

/-- the units of a string up to the quote that closes it; nothing may follow it -/
def string? (quote : Char) : Text → Option (List Nat)
  | [] => none
  | c :: t =>
    if c = quote then if t.isEmpty then some [] else none
    else if c = '\\' then
      match _h : escaped? t with
      | some (u, rest) => (string? quote rest).map (u ++ ·)
      | none => none
    else if c = '\n' || c = '\r' then none
    else (string? quote t).map (unitsOf c.toNat ++ ·)
termination_by t => (utf16 t).length
decreasing_by
  all_goals
    have hc := one_le_length_unitsOf c.toNat
    rw [utf16_cons, List.length_append]
  · have := length_escaped? ‹escaped? t = some (u, rest)›
    omega
  · omega

/-- the string that a literal stands for -/
def value? : Text → Option (List Nat)
  | '\x27' :: t => string? '\x27' t
  | '"' :: t => string? '"' t
  | _ => none

def identifier? : Text → Option (List Nat)
  | [] => some []
  | c :: t =>
    if c = '\\' then
      match t with
      | 'u' :: t' =>
        match _h : unicode? t' with
        | some (u, rest) => (identifier? rest).map (u ++ ·)
        | none => none
      | _ => none
    else (identifier? t).map (unitsOf c.toNat ++ ·)
termination_by t => (utf16 t).length
decreasing_by
  all_goals
    have hc := one_le_length_unitsOf c.toNat
    simp only [utf16_cons, List.length_append]
  · have := length_unicode? ‹unicode? t' = some (u, rest)›
    omega
  · omega

/-- the name that a spelling stands for: an identifier, or a string -/
def name? (t : Text) : Option (List Nat) :=
  if t.head? = some '\x27' || t.head? = some '"' then value? t else identifier? t

/-- a spelling without quotes and escapes -/
def Plain (t : Text) : Prop := t.head? ≠ some '\x27' ∧ t.head? ≠ some '"' ∧ '\\' ∉ t

theorem length_string? {quote : Char} {t : Text} {v : List Nat} (h : string? quote t = some v) :
    v.length < (utf16 t).length := by
  fun_induction string? quote t generalizing v with
  | case1 => cases h
  | case2 t ht =>
    obtain rfl : [] = v := by simpa using h
    have hc := one_le_length_unitsOf quote.toNat
    rw [utf16_cons, List.length_append]
    exact Nat.lt_add_right _ hc
  | case3 => cases h
  | case4 t u rest he hq ih =>
    obtain ⟨v', hv', rfl⟩ := Option.map_eq_some_iff.mp h
    have hlt := ih hv'
    have hle := length_escaped? he
    rw [utf16_cons, List.length_append, List.length_append]
    omega
  | case5 => cases h
  | case6 => cases h
  | case7 c t _ _ _ ih =>
    obtain ⟨v', hv', rfl⟩ := Option.map_eq_some_iff.mp h
    have hlt := ih hv'
    rw [utf16_cons, List.length_append, List.length_append]
    omega

theorem length_identifier? {t : Text} {v : List Nat} (h : identifier? t = some v) :
    v.length ≤ (utf16 t).length ∧ ('\\' ∈ t → v.length < (utf16 t).length) := by
  fun_induction identifier? t generalizing v with
  | case1 =>
    obtain rfl : [] = v := by simpa using h
    exact ⟨Nat.zero_le _, nofun⟩
  | case2 t' u rest he ih =>
    obtain ⟨v', hv', rfl⟩ := Option.map_eq_some_iff.mp h
    have hlt := length_unicode? he
    have hle := (ih hv').1
    have hs : (u ++ v').length < (utf16 ('\\' :: 'u' :: t')).length := by
      rw [utf16_cons, utf16_cons]
      simp only [List.length_append]
      omega
    exact ⟨Nat.le_of_lt hs, fun _ => hs⟩
  | case3 => cases h
  | case4 => cases h
  | case5 c t hc ih =>
    obtain ⟨v', hv', rfl⟩ := Option.map_eq_some_iff.mp h
    obtain ⟨hle, hlt⟩ := ih hv'
    rw [utf16_cons, List.length_append, List.length_append]
    refine ⟨by omega, fun hmem => ?_⟩
    have := hlt ((List.mem_cons.mp hmem).resolve_left (Ne.symm hc))
    omega

theorem identifier?_eq {t : Text} (h : '\\' ∉ t) : identifier? t = some (utf16 t) := by
  induction t with
  | nil =>
    rw [identifier?]
    rfl
  | cons c t ih =>
    have hc : c ≠ '\\' := fun e => h (e ▸ List.mem_cons_self)
    have ht := ih fun hm => h (List.mem_cons_of_mem _ hm)
    rw [identifier?.eq_def]
    simp only [if_neg hc, ht, utf16_cons, Option.map_some]

/-- **A spelling stands for itself when it is plain, and only then.** -/
theorem name?_eq_iff (t : Text) : name? t = some (utf16 t) ↔ Plain t := by
  unfold name? Plain
  constructor
  · intro h
    split at h
    · exfalso
      unfold value? at h
      split at h
      · have := length_string? h
        rw [utf16_cons, List.length_append] at this
        omega
      · have := length_string? h
        rw [utf16_cons, List.length_append] at this
        omega
      · cases h
    · next hq =>
      simp only [Bool.or_eq_true, decide_eq_true_eq, not_or] at hq
      exact ⟨hq.1, hq.2, fun hm => Nat.lt_irrefl _ ((length_identifier? h).2 hm)⟩
  · rintro ⟨h₁, h₂, h₃⟩
    rw [if_neg (by simp [h₁, h₂]), identifier?_eq h₃]

/-! ## registered literals -/

theorem string?_escaped {t rest : Text} {u : List Nat} (h : escaped? t = some (u, rest)) :
    string? '\x27' ('\\' :: t) = (string? '\x27' rest).map (u ++ ·) := by
  rw [string?, if_neg (by decide), if_pos rfl]
  split
  · next u' rest' h' =>
    obtain ⟨rfl, rfl⟩ : u' = u ∧ rest' = rest := by simpa [h] using h'.symm
    rfl
  · next h' =>
    rw [h] at h'
    cases h'

theorem string?_escape (t : Text) : string? '\x27' (Quoted.escape t ++ ['\x27']) = some (utf16 t) := by
  induction t with
  | nil =>
    show string? '\x27' ['\x27'] = _
    rw [string?]
    rfl
  | cons c t ih =>
    rw [Quoted.escape_cons, List.append_assoc]
    rcases Quoted.escape_cases c with ⟨e, he, hmark⟩ | ⟨he, h₁, h₂, h₃, h₄⟩
    · have hunits : ∀ p ∈ Quoted.marks, ∀ u,
          escaped? (p.2 :: u) = some (unitsOf p.1.toNat, u) := by
        simp only [Quoted.marks, List.forall_mem_cons]
        exact ⟨fun _ => rfl, fun _ => rfl, fun _ => rfl, fun _ => rfl, nofun⟩
      rw [he, List.cons_append, List.singleton_append, string?_escaped (hunits _ hmark _), ih,
        utf16_cons]
      rfl
    · rw [he, List.singleton_append, string?, if_neg h₂, if_neg h₁, if_neg (by simp [h₃, h₄]), ih,
        utf16_cons]
      rfl

/-- **A registered literal stands for the text that it was made of.** -/
theorem value?_encode (t : Text) : value? (Quoted.encode t) = some (utf16 t) := string?_escape t

end Spelling

/-- **What stories are registered under**: each under the spelling of a name that the module exports,
which the literal stands for; that is the name itself when it is spelled plainly, and only then. -/
theorem Scenario.registered_spelling (id text tags : Text) (f : Findings) :
    let m := Module.read id text
    ∃ r, registerAll m (Bindings.ofModule m) tags (Patch.ofText text) f = .ok r ∧
      ∀ n ∈ r.names, (∃ s, .story s ∈ m.allExported ∧ s.name = n) ∧
        Spelling.value? (Quoted.encode n) = some (Spelling.utf16 n) ∧
        (Spelling.name? n = Spelling.value? (Quoted.encode n) ↔ Spelling.Plain n) := by
  intro m
  obtain ⟨r, hr, hn, -⟩ := registerAll_ofText (Module.regular_read id text) tags f
  refine ⟨r, hr, fun n hmem => ⟨?_, Spelling.value?_encode n, ?_⟩⟩
  · rw [hn] at hmem
    obtain ⟨s, hs, rfl⟩ := List.mem_map.mp hmem
    obtain ⟨e, he, hse⟩ := List.mem_filterMap.mp (mem_of_mem_fresh hs).1
    cases e with
    | story s' =>
      obtain rfl := Option.some.inj hse
      exact ⟨_, he, rfl⟩
    | skipped n => cases hse
  · rw [Spelling.value?_encode]
    exact Spelling.name?_eq_iff n

/-- a story that is exported under a string -/
def Module.quotedStory : Module :=
  .read "A.stories.ts" "const A = \x7b\x7d;\nexport \x7b A as 'my story' \x7d;\n"

/-- **A name that is a string is registered with its quotes**, which the literal then stands for. -/
theorem Scenario.registered_quotes :
    let m := Module.quotedStory
    let name : Text := "my story".toList
    m.hasErrors = false ∧
      ∃ r, registerAll m (Bindings.ofModule m) "\x7b\x7d" (Patch.ofText m.text) .none = .ok r ∧
        r.names = [Quoted.encode name] ∧
        Spelling.name? (Quoted.encode name) = some (Spelling.utf16 name) ∧
        Spelling.value? (Quoted.encode (Quoted.encode name)) =
          some (Spelling.utf16 (Quoted.encode name)) ∧
        Spelling.utf16 (Quoted.encode name) ≠ Spelling.utf16 name := by
  intro m name
  have hm : m.Regular := Module.regular_read _ _
  have hscenarios : m.scenarios.map Scenario.name = [Quoted.encode name] := by decide +kernel
  obtain ⟨r, hr, hnames, -⟩ := registerAll_ofText hm "\x7b\x7d" .none
  refine ⟨by decide +kernel, r, hr, hnames.trans hscenarios, ?_, Spelling.value?_encode _,
    by decide +kernel⟩
  -- the spelling of the name is itself a literal that is made of the name
  exact Spelling.value?_encode name

end StorySuite
