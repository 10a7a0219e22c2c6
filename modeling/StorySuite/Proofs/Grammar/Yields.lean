import StorySuite.Proofs.Grammar.Reads

/-!
# What parsers read

A parser is put together from smaller ones, so what it reads is told by a rule for each way of
putting parsers together.

* `Yields t P Q front p`   what `p` reads are nodes in `P`, and what it makes of them, with those
                           in `front` before them, is in `Q`;
* `Lists`, `Quiet`         `p` gives the list of its nodes, or has none;
* `Gives t P p`            `p` reads one node, with nothing but comments in front of it;
* `Extends t P n v p`      `p` reads on behind the node `n` and makes it larger;
* `Gives.nodeOf`           **what a parser reads stands in a row inside of the node made of it**.
-/

namespace StorySuite.Grammar

open Grammar.Parser

variable {t : Text} {α β : Type}

/-! ## outcomes -/

/-- a parser is done with what is in `D`, or stops in the text `t` -/
def Ends (t : Text) (D : α → Reader → Prop) : Outcome α → Prop
  | .done a s => D a s
  | .halt h => h.In t

namespace Ends

variable {D : α → Reader → Prop} {E : β → Reader → Prop} {r : Reader}

/-! ### parsers put together -/

theorem bind {p : Parser α} {f : α → Parser β} (hp : Ends t D (p r))
    (hf : ∀ a s, D a s → Ends t E (f a s)) : Ends t E ((p >>= f) r) := by
  show Ends t E (match p r with | .done a s => f a s | .halt h => .halt h)
  cases hr : p r with
  | done a s =>
    rw [hr] at hp
    exact hf a s hp
  | halt h =>
    rw [hr] at hp
    exact hp

theorem map {p : Parser α} {f : α → β} (hp : Ends t D (p r))
    (hf : ∀ a s, D a s → E (f a) s) : Ends t E ((f <$> p) r) :=
  bind hp hf

theorem mono {o : Outcome α} {D' : α → Reader → Prop} (ho : Ends t D o)
    (h : ∀ a s, D a s → D' a s) : Ends t D' o := by
  cases o with
  | done a s => exact h a s ho
  | halt k => exact ho

/-- what is in `D` is what the parser is done with -/
theorem done {p : Parser α} (hp : Ends t D (p r)) :
    Ends t (fun a s => D a s ∧ p r = .done a s) (p r) := by
  cases hr : p r with
  | done a s =>
    rw [hr] at hp
    exact ⟨hp, rfl⟩
  | halt h =>
    rw [hr] at hp
    exact hp

theorem further {h k : Halt} (hh : h.In t) (hk : k.In t) : (h.further k).In t := by
  unfold Halt.further
  split
  · exact hk
  · exact hh

theorem orElse {p q : Parser α} (hp : Ends t D (p r)) (hq : Ends t D (q r)) :
    Ends t D ((p <|> q) r) := by
  show Ends t D (match p r with
    | .done a s => .done a s
    | .halt h => match q r with
      | .done a s => .done a s
      | .halt k => .halt (h.further k))
  cases hpr : p r with
  | done a s =>
    rw [hpr] at hp
    exact hp
  | halt h =>
    rw [hpr] at hp
    cases hqr : q r with
    | done a s =>
      rw [hqr] at hq
      exact hq
    | halt k =>
      rw [hqr] at hq
      exact further hp hq

theorem look {g : Reader → α} {f : α → Parser β} (h : Ends t E (f (g r) r)) :
    Ends t E ((look g >>= f) r) := h

theorem ite {c : Prop} [Decidable c] {p q : Parser α} (hp : Ends t D (p r))
    (hq : Ends t D (q r)) : Ends t D ((if c then p else q) r) := by
  split
  · exact hp
  · exact hq

theorem stuck (h : r.At t) : r.stuck.In t := by
  obtain ⟨cs, hs⟩ := h.settles
  exact ⟨Nat.le_trans h.last_le hs.offset_le, h.last_boundary⟩

theorem fail (h : r.At t) : Ends t D (Parser.fail r) := stuck h

end Ends

/-! ## lists of nodes -/

variable {P : Node → Prop} {Q : α → List Node → Prop} {R : β → List Node → Prop}
  {front : List Node}

/-- from `r` over nodes in `P` to `s`; what is made of them behind those in `front` is in `Q` -/
def Yielded (t : Text) (P : Node → Prop) (Q : α → List Node → Prop) (front : List Node)
    (r : Reader) (a : α) (s : Reader) : Prop :=
  ∃ ws, Reads t r s ws ∧ (∀ n ∈ nodesOf ws, P n) ∧ Q a (front ++ nodesOf ws)

/-- what `p` reads are nodes in `P`, and what it makes of them behind those in `front` is in `Q` -/
def Yields (t : Text) (P : Node → Prop) (Q : α → List Node → Prop) (front : List Node)
    (p : Parser α) : Prop :=
  ∀ r : Reader, r.At t → Ends t (Yielded t P Q front r) (p r)

/-- `p` gives the list of the nodes that it reads, behind those in `front` -/
def Lists (t : Text) (P : Node → Prop) (front : List Node) (p : Parser (List Node)) : Prop :=
  Yields t P Eq front p

/-- `p` reads no nodes, or none that are kept -/
def Quiet (t : Text) (p : Parser α) : Prop :=
  Yields t (fun _ => False) (fun _ ns => ns = []) [] p

/-- what is read first, and then the rest -/
theorem Yielded.after {r s u : Reader} {ws : List Node} {a : α} (hws : Reads t r s ws)
    (hP : ∀ n ∈ nodesOf ws, P n) (h : Yielded t P Q (front ++ nodesOf ws) s a u) :
    Yielded t P Q front r a u := by
  obtain ⟨vs, hvs, hP', hQ⟩ := h
  refine ⟨ws ++ vs, hws.trans hvs, ?_, ?_⟩
  · intro n hn
    rw [nodesOf_append] at hn
    rcases List.mem_append.mp hn with hn | hn
    · exact hP n hn
    · exact hP' n hn
  · rw [nodesOf_append, ← List.append_assoc]
    exact hQ

/-- what was read, if it is not kept -/
theorem Yielded.quiet {r s : Reader} {a : α} (h : Yielded t P Q front r a s) :
    Yielded t (fun _ => False) (fun _ ns => ns = []) [] r a s := by
  obtain ⟨ws, hws, -, -⟩ := h
  refine ⟨commentsOf ws, hws.comments, fun n hn => ?_, nodesOf_commentsOf ws⟩
  rw [nodesOf_commentsOf] at hn
  cases hn

/-- what was read, and then what `p` reads -/
theorem Yielded.bind {r s : Reader} {a : α} {p : Parser β} (h : Yielded t P Q [] r a s)
    (hp : ∀ ns, Q a ns → Yields t P R (front ++ ns) p) :
    Ends t (Yielded t P R front r) (p s) := by
  obtain ⟨ws, hws, hP, hQ⟩ := h
  exact (hp _ hQ s hws.stands).mono fun b u h => h.after hws hP

namespace Yields

variable {p : Parser α} {f : α → Parser β}

/-- what is read behind the nodes in `front`, and then the rest -/
theorem seq (hp : Yields t P Q front p) (hf : ∀ a ns, Q a ns → Yields t P R ns (f a)) :
    Yields t P R front (p >>= f) := by
  intro r hr
  refine (hp r hr).bind fun a s h => ?_
  obtain ⟨ws, hws, hP, hQ⟩ := h
  exact (hf a _ hQ s hws.stands).mono fun b u h => h.after hws hP

theorem bind (hp : Yields t P Q [] p)
    (hf : ∀ a ns, Q a ns → Yields t P R (front ++ ns) (f a)) : Yields t P R front (p >>= f) :=
  fun r hr => (hp r hr).bind fun a _ h => h.bind (hf a)

theorem pure {a : α} (h : Q a front) : Yields t P Q front (Pure.pure a) := by
  intro r hr
  refine ⟨[], .refl hr, fun n hn => absurd hn List.not_mem_nil, ?_⟩
  rw [show nodesOf [] = [] from rfl, List.append_nil]
  exact h

theorem mono {P' : Node → Prop} {Q' : α → List Node → Prop} (hp : Yields t P Q front p)
    (hP : ∀ n, P n → P' n) (hQ : ∀ a ns, Q a ns → Q' a ns) : Yields t P' Q' front p := by
  intro r hr
  refine (hp r hr).mono fun a s h => ?_
  obtain ⟨ws, hws, h1, h2⟩ := h
  exact ⟨ws, hws, fun n hn => hP n (h1 n hn), hQ _ _ h2⟩

theorem map {g : α → β} (hp : Yields t P (fun a ns => R (g a) ns) front p) :
    Yields t P R front (g <$> p) :=
  fun r hr => (hp r hr).map fun _ _ h => h

theorem orElse {q : Parser α} (hp : Yields t P Q front p) (hq : Yields t P Q front q) :
    Yields t P Q front (p <|> q) :=
  fun r hr => (hp r hr).orElse (hq r hr)

theorem fail : Yields t P Q front (Parser.fail : Parser α) := fun _ hr => Ends.fail hr

/-- the nodes need not be kept -/
theorem quiet (hp : Yields t P Q front p) : Quiet t p :=
  fun r hr => (hp r hr).mono fun _ _ h => h.quiet

theorem look {g : Reader → α} (hf : ∀ a, Yields t P R front (f a)) :
    Yields t P R front (look g >>= f) := by
  intro r hr
  exact hf (g r) r hr

/-- what is seen of the place is what is there -/
theorem look_at {g : Reader → α} (hf : ∀ r, Yields t P R front (f (g r))) :
    Yields t P R front (Parser.look g >>= f) := fun r hr => hf r r hr

theorem ite {c : Prop} [Decidable c] {q : Parser α} (hp : Yields t P Q front p)
    (hq : Yields t P Q front q) : Yields t P Q front (if c then p else q) := by
  split
  · exact hp
  · exact hq

/-- what one step keeps up, a loop keeps up -/
theorem loop {step : α → Parser (Option α)} {a : α} (h : Q a front)
    (hstep : ∀ a ns, Q a ns → Yields t P (fun o ms => Q (o.getD a) ms) ns (step a)) :
    Yields t P Q front (loop step a) := by
  intro r hr
  show Ends t _ (loop.go step r.limit a r)
  generalize r.limit = n
  induction n generalizing a r front with
  | zero => exact pure h r hr
  | succ n ih =>
    have hs := hstep a front h r hr
    rw [loop.go]
    cases hsr : step a r with
    | halt k =>
      rw [hsr] at hs
      exact hs
    | done o s =>
      rw [hsr] at hs
      obtain ⟨ws, hws, hP, hQ⟩ := hs
      cases o with
      | none => exact ⟨ws, hws, hP, hQ⟩
      | some b =>
        exact (ih hQ s hws.stands).mono fun c u h => h.after hws hP

end Yields

theorem Quiet.bind {p : Parser α} {f : α → Parser β} (hp : Quiet t p)
    (hf : ∀ a, Yields t P R front (f a)) : Yields t P R front (p >>= f) := by
  refine Yields.bind (hp.mono (fun _ h => h.elim) fun _ _ h => h) fun a ns h => ?_
  rw [h, List.append_nil]
  exact hf a

theorem Lists.bind {p : Parser (List Node)} {f : List Node → Parser β} (hp : Lists t P [] p)
    (hf : ∀ l, Yields t P R (front ++ l) (f l)) : Yields t P R front (p >>= f) :=
  Yields.bind hp fun l _ h => h ▸ hf l

/-! ## quiet parsers -/

theorem quiet_pure (a : α) : Quiet t (Pure.pure a) := .pure rfl

theorem quiet_guard (b : Bool) : Quiet t (guard b) := by
  unfold Parser.guard
  exact .ite (quiet_pure ()) .fail

theorem quiet_loop {step : α → Parser (Option α)} (h : ∀ a, Quiet t (step a)) (a : α) :
    Quiet t (loop step a) :=
  .loop rfl fun a ns hns => by
    rw [hns]
    exact h a

theorem Quiet.optional {p : Parser α} (h : Quiet t p) : Quiet t (optional p) :=
  .orElse (.map h) (quiet_pure none)

/-- the span that `p` gives is read by it, with nothing but comments in front of it -/
def Spans (t : Text) (p : Parser Span) : Prop :=
  ∀ r : Reader, r.At t → Ends t (fun a s => ∃ cs, Reads t r s cs ∧ nodesOf cs = [] ∧
    Node.Row r.offset a.start cs ∧ a.start ≤ a.stop ∧ a.stop = s.last ∧
      t.isBoundary a.start = true) (p r)

theorem Spans.quiet {p : Parser Span} (h : Spans t p) : Quiet t p := by
  intro r hr
  refine (h r hr).mono fun a s h => ?_
  obtain ⟨cs, hcs, hn, -⟩ := h
  exact ⟨cs, hcs, fun n hm => absurd (hn ▸ hm) List.not_mem_nil, hn⟩

theorem spans_token (l : Lexeme) : Spans t (token l) := by
  intro r hr
  obtain ⟨cs, hcs⟩ := hr.settles
  have hstuck := Ends.stuck hr
  unfold token
  dsimp only
  split
  · next n _ =>
    have hu := hcs.stands.advance (n + 1)
    have hle := Reader.offset_le_advance (n + 1) r.settle
    exact ⟨cs, .of_settles hcs hu.ended hle (Reader.advance_comments _ _), hcs.nodesOf_eq,
      hcs.row, hle, rfl, hcs.stands.offset_boundary⟩
  · exact hstuck

theorem spans_word (w : Text) : Spans t (word w) := by
  intro r hr
  unfold Parser.word
  split
  · exact spans_token .name r hr
  · exact Ends.stuck hr

theorem quiet_token (l : Lexeme) : Quiet t (token l) := (spans_token l).quiet

theorem quiet_mark (w : Text) : Quiet t (mark w) := quiet_token _

theorem quiet_markNot (w : Text) (no : List Char) : Quiet t (markNot w no) := quiet_token _

theorem quiet_word (w : Text) : Quiet t (word w) := (spans_word w).quiet

theorem quiet_name : Quiet t name := quiet_token .name

theorem quiet_chars (l : Lexeme) : Quiet t (chars l) := by
  intro r hr
  unfold chars
  split
  · next n _ =>
    have hu := hr.advance n
    have hle := Reader.offset_le_advance n r
    exact ⟨[], .of_settles (.refl hr) hu.ended hle (Reader.advance_comments _ _),
      fun _ hn => absurd hn List.not_mem_nil, rfl⟩
  · exact ⟨hr.last_le, hr.last_boundary⟩

theorem quiet_maybeEnded (line : Line) : Quiet t (maybeEnded line) := by
  intro r hr
  unfold maybeEnded
  split
  · next s hs =>
    obtain ⟨u, cs, hu, rfl⟩ := hr.ended? hs
    exact ⟨cs, .of_settles hu hu.stands.ended (Nat.le_refl _) rfl,
      fun n hn => absurd (hu.nodesOf_eq ▸ hn) List.not_mem_nil, hu.nodesOf_eq⟩
  · exact quiet_pure () r hr

theorem quiet_semicolon (line : Line) : Quiet t (semicolon line) := by
  intro r hr
  have h := quiet_maybeEnded line r hr
  unfold maybeEnded at h
  unfold semicolon
  split
  · next s hs =>
    rw [hs] at h
    exact h
  · exact Quiet.bind (quiet_mark _) (fun _ => quiet_pure ()) r hr

end StorySuite.Grammar
