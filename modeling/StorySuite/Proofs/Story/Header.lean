import StorySuite.Proofs.Patch.Rendering
import StorySuite.Proofs.Story.Code

/-!
# Where a story is declared

The lines that register the stories of a statement stand right in front of the line that it begins
on.  What comes of that line is said here: it is kept as far as it is nobody else's.  Statements
that begin further on in it bring their own lines along, the meta object its title, and an object
that is exported without a name a variable.

* `ending_insertions`       insertions at a place stand in front of all else that is made there;
* `Module.headerCode`       what is made of the line of a statement behind its registrations;
* `Module.Header`           where it stands in the code, and what is kept of it;
* `transform_header`        **every story has its header line right behind its registration**;
* `header_not_verbatim`     the line is not kept as it is where the meta object stands on it.
-/

namespace StorySuite

theorem Text.weave_eq_self {f : Nat → Text} {n : Nat} {t : Text}
    (h : ∀ k, n ≤ k → k < n + t.size → f k = []) : t.weave f n = t := by
  induction t generalizing n with
  | nil => rfl
  | cons c t ih =>
    have hc : 0 < c.utf8Size := Char.utf8Size_pos c
    rw [Text.size_cons] at h
    rw [weave, h n (Nat.le_refl n) (by omega), ih fun k hk hk' => h k (by omega) (by omega)]
    rfl

/-! ## insertions come first -/

namespace Patch

variable {es fs : List Edit}

theorem insertions_append (n : Nat) :
    insertions (es ++ fs) n = insertions es n ++ insertions fs n := by
  unfold insertions
  rw [List.filter_append, List.flatMap_append]

/-- the edits apart from the insertions at byte `n` -/
def apartFrom (es : List Edit) (n : Nat) : List Edit := es.filter fun e => !e.insertsAt n

theorem before_apartFrom_self (n : Nat) :
    before es n = insertions es n ++ before (apartFrom es n) n := by
  have h1 : (apartFrom es n).filter (Edit.insertsAt n) = [] := by
    refine List.filter_eq_nil_iff.mpr fun e he hn => ?_
    have h := (List.mem_filter.mp he).2
    rw [hn] at h
    cases h
  have h2 : (apartFrom es n).filter (Edit.replacesAt n) = es.filter (Edit.replacesAt n) := by
    rw [apartFrom, List.filter_filter]
    refine List.filter_congr fun e _ => ?_
    cases e <;> simp [Edit.insertsAt, Edit.replacesAt]
  rw [before, before, h1, h2, List.flatMap_append]
  rfl

theorem before_apartFrom {n k : Nat} (h : k ≠ n) : before (apartFrom es n) k = before es k := by
  have hcongr : ∀ f : Edit → Bool, (∀ e, f e = true → e.insertsAt n = false) →
      (apartFrom es n).filter f = es.filter f := by
    intro f hf
    rw [apartFrom, List.filter_filter]
    refine List.filter_congr fun e _ => ?_
    cases he : f e with
    | false => rfl
    | true => rw [hf e he]; rfl
  rw [before, before, hcongr, hcongr]
  · intro e he
    cases e with
    | insert p t => cases he
    | replace a b t => rfl
  · intro e he
    cases e with
    | insert p t =>
      have hp : p = k := of_decide_eq_true he
      exact decide_eq_false fun hn => h (hp ▸ hn)
    | replace a b t => rfl

theorem keeps_apartFrom (n k : Nat) : keeps (apartFrom es n) k = keeps es k := by
  unfold keeps apartFrom
  rw [List.all_filter]
  congr 1
  funext e
  cases e <;> simp [Edit.insertsAt, Edit.keeps]

/-- **Insertions at a place stand in front of all else that is made there.** -/
theorem ending_insertions (es : List Edit) (n : Nat) (t : Text) :
    ending es n t = insertions es n ++ ending (apartFrom es n) n t := by
  unfold ending
  cases t with
  | nil => exact before_apartFrom_self n
  | cons c t =>
    have hc : 0 < c.utf8Size := Char.utf8Size_pos c
    have hlast : n + Text.size (c :: t) ≠ n := by
      rw [Text.size_cons]
      omega
    have htail : passage (apartFrom es n) (n + c.utf8Size) t = passage es (n + c.utf8Size) t :=
      passage_congr fun k hk _ => ⟨before_apartFrom (by omega), keeps_apartFrom n k⟩
    rw [before_apartFrom hlast, passage, passage, htail, keeps_apartFrom, before_apartFrom_self]
    simp only [List.append_assoc]

end Patch

open Patch

/-! ## the line that a statement begins on -/

namespace Module

/-- **What is made of the line that the statement at byte `n` begins on**, behind its
registrations. -/
def headerCode (m : Module) (tags title : Text) (e : MetaExport) (n : Nat) : Text :=
  passage (apartFrom (m.edits tags title e) n) n (Scenario.lineFrom m.text n)

/-- the title in front of byte `k`, when the meta object goes by a name -/
def titleAt (m : Module) (title : Text) : MetaExport → Nat → Text
  | .aliased name, k => Meta.titleAt m title (m.objectOf? name) k
  | _, _ => []

/-- what is inserted in front of byte `k`: the title of a meta object that goes by a name, and the
registrations of a statement that begins there -/
def frontOf (m : Module) (tags title : Text) (e : MetaExport) (k : Nat) : Text :=
  m.titleAt title e k ++ m.linesAt tags k

/-- no object that is exported without a name reaches between two bytes -/
def ClearOfInline (e : MetaExport) (n stop : Nat) : Prop :=
  ∀ s v o, e = .inline s v o → s.stop ≤ n ∨ stop ≤ s.start

/-- **Between two bytes nothing else is edited**: no statement with a story begins there, and the
meta object gets neither a title nor a variable there. -/
structure Alone (m : Module) (e : MetaExport) (n stop : Nat) : Prop where
  scenarios : ∀ c ∈ m.scenarios, c.start ≤ n ∨ stop ≤ c.start
  title : ∀ name o, e = .aliased name → m.objectOf? name = some o →
    o.hasTitle m = true ∨ o.start + 1 ≤ n ∨ stop ≤ o.start + 1
  clear : ClearOfInline e n stop

/-- **How a story stands in the code of a test module**: its registration, those of the other
stories of the statement, and the line that the statement begins on.  The line is there as a whole,
with what is inserted further on in it, unless the object that is exported without a name reaches
into it; and it is as it was if nothing else is edited there. -/
structure Header (m : Module) (tags title : Text) (e : MetaExport) (code : Text) (c : Scenario) :
    Prop where
  declared : ∃ x ∈ m.topLevel, x.start = c.start
  stands : ∃ (front : Text) (later : List Scenario) (back : Text),
    (∀ d ∈ later, d ∈ m.scenarios ∧ d ≠ c ∧ d.start = c.start) ∧
      code = front ++ (c.line tags ++ (later.flatMap (Scenario.line tags) ++
        (m.headerCode tags title e c.start ++ back)))
  kept : ClearOfInline e c.start (c.start + (Scenario.lineFrom m.text c.start).size) →
    m.headerCode tags title e c.start = (Scenario.lineFrom m.text c.start).weave
      (fun k => if k = c.start then [] else m.frontOf tags title e k) c.start
  verbatim : m.Alone e c.start (c.start + (Scenario.lineFrom m.text c.start).size) →
    m.headerCode tags title e c.start = Scenario.lineFrom m.text c.start

theorem insertions_edits (m : Module) (tags title : Text) (e : MetaExport) (n : Nat) :
    insertions (m.edits tags title e) n = insertions (Meta.edits m title e) n ++
      (m.linesAt tags n ++ if n = m.text.size then Story.importBlock else []) := by
  have hlines : insertions (m.scenarios.map (Scenario.edit tags)) n = m.linesAt tags n := by
    have hnone : (m.scenarios.map (Scenario.edit tags)).find? (Edit.replacesAt n) = none := by
      refine List.find?_eq_none.mpr fun d hd => ?_
      obtain ⟨c, -, rfl⟩ := List.mem_map.mp hd
      exact Bool.false_ne_true
    exact (before_of_find?_none hnone).symm.trans (Scenario.before_edits tags m.scenarios n)
  have himports : insertions [.insert m.text.size Story.importBlock] n =
      if n = m.text.size then Story.importBlock else [] := by
    unfold insertions
    by_cases hn : n = m.text.size
    · simp [Edit.insertsAt, Edit.text, hn]
    · have hne : ¬ m.text.size = n := fun h => hn h.symm
      simp [Edit.insertsAt, hn, hne]
  rw [edits, laterEdits, insertions_append, insertions_append, hlines, himports]

theorem scenarios_nodup (m : Module) : m.scenarios.Nodup :=
  List.Pairwise.of_map Scenario.name (fun _ _ h he => h (congrArg _ he)) (Scenario.nodup_fresh _ _)

/-- the registrations at the place of a story, with its own among them -/
theorem exists_linesAt {m : Module} {c : Scenario} (hc : c ∈ m.scenarios) (tags : Text) :
    ∃ (front : Text) (later : List Scenario),
      (∀ d ∈ later, d ∈ m.scenarios ∧ d ≠ c ∧ d.start = c.start) ∧
      m.linesAt tags c.start = front ++ (c.line tags ++ later.flatMap (Scenario.line tags)) := by
  have hmem : c ∈ m.scenarios.filter fun d => d.start = c.start :=
    List.mem_filter.mpr ⟨hc, decide_eq_true rfl⟩
  obtain ⟨us, later, hsplit⟩ := List.append_of_mem hmem
  refine ⟨us.flatMap (Scenario.line tags), later, ?_, ?_⟩
  · intro d hd
    have hnodup := m.scenarios_nodup.filter fun d => d.start = c.start
    rw [hsplit] at hnodup
    have hdmem : d ∈ m.scenarios.filter fun d => d.start = c.start := by
      rw [hsplit]
      simp [hd]
    obtain ⟨h1, h2⟩ := List.mem_filter.mp hdmem
    refine ⟨h1, ?_, of_decide_eq_true h2⟩
    rintro rfl
    exact (List.nodup_cons.mp (List.nodup_append.mp hnodup).2.1).1 hd
  · show Scenario.linesAt tags m.scenarios c.start = _
    rw [Scenario.linesAt, hsplit, List.flatMap_append, List.flatMap_cons]

/-- imports are inserted at a statement only when nothing is left of the text -/
theorem importBlock_headerCode (m : Module) (tags title : Text) (e : MetaExport) (n : Nat)
    (back : Text) : (if n = m.text.size then Story.importBlock else []) ++
      (m.headerCode tags title e n ++ back) = m.headerCode tags title e n ++
        ((if n = m.text.size then Story.importBlock else []) ++ back) := by
  by_cases hend : n = m.text.size
  · have hline : Scenario.lineFrom m.text n = [] := by
      have h := Text.drop_append m.text []
      rw [List.append_nil] at h
      rw [Scenario.lineFrom, hend, h]
      rfl
    have hnil : m.headerCode tags title e n = [] := by
      rw [headerCode, hline]
      rfl
    rw [hnil]
    rfl
  · rw [if_neg hend]
    rfl

variable {m : Module} (hm : m.Regular) {e : MetaExport}
include hm

/-- the edits of an exported object are apart from a range that it does not reach into -/
theorem inline_clear {s v o : Node} (he : (MetaExport.all m).head? = some (.inline s v o))
    (title : Text) {n stop k : Nat} (hoff : s.stop ≤ n ∨ stop ≤ s.start) (hn : n ≤ k)
    (hk : k < stop) : ∀ d ∈ Meta.edits m title (.inline s v o),
      d.keeps k = true ∧ (k ≠ n → d.start ≠ k) ∧ d.replacesAt k = false := by
  intro d hd
  have hin := MetaExport.inline_of_mem_all (List.mem_of_mem_head? he)
  have hwithin := Meta.within_of_mem_edits hm hin hd
  have hfit := (Meta.apply_eq hm he title Findings.none).2.fits d hd
  cases d with
  | insert p t =>
    refine ⟨rfl, fun hkn hp => ?_, rfl⟩
    obtain ⟨hp1, hp2⟩ := hwithin
    have hp' : p = k := hp
    omega
  | replace a b t =>
    obtain ⟨ha, hb⟩ := hwithin
    obtain ⟨-, -, hab⟩ := hfit
    have hne : a ≠ k := by omega
    refine ⟨?_, fun _ => hne, decide_eq_false hne⟩
    simp only [Edit.keeps, Bool.or_eq_true, decide_eq_true_eq]
    omega

/-- what the edits of the meta object do to a range that no exported object reaches into -/
theorem meta_clear (he : (MetaExport.all m).head? = some e) (title : Text) {n stop : Nat}
    (hclear : ClearOfInline e n stop) {k : Nat} (hn : n ≤ k) (hk : k < stop) :
    keeps (Meta.edits m title e) k = true ∧
      (k ≠ n → before (Meta.edits m title e) k = m.titleAt title e k) ∧
        ∀ d ∈ Meta.edits m title e, d.replacesAt k = false := by
  cases e with
  | unrecognized => exact ⟨rfl, fun _ => rfl, nofun⟩
  | aliased name =>
    refine ⟨List.all_eq_true.mpr fun d hd => ?_, fun _ => ?_, fun d hd => ?_⟩
    · obtain ⟨o, rfl⟩ := Meta.mem_edits_aliased hd
      rfl
    · rw [Meta.edits_aliased, hm.objectOf?_eq]
      exact before_titleEdits m title (m.objectOf? name) k
    · obtain ⟨o, rfl⟩ := Meta.mem_edits_aliased hd
      rfl
  | inline s v o =>
    have hside := inline_clear hm he title (hclear s v o rfl) hn hk
    refine ⟨List.all_eq_true.mpr fun d hd => (hside d hd).1, fun hkn => ?_,
      fun d hd => (hside d hd).2.2⟩
    exact before_eq_nil fun d hd => (hside d hd).2.1 hkn

/-- **A line that no exported object reaches into is there as a whole.** -/
theorem headerCode_eq_weave (he : (MetaExport.all m).head? = some e) (tags title : Text) {n : Nat}
    (hn : m.text.isBoundary n = true)
    (hclear : ClearOfInline e n (n + (Scenario.lineFrom m.text n).size)) :
    m.headerCode tags title e n = (Scenario.lineFrom m.text n).weave
      (fun k => if k = n then [] else m.frontOf tags title e k) n := by
  have hsize := Text.le_size (Scenario.slice_lineFrom hn).1
  refine passage_eq_weave fun k hk hk' => ?_
  obtain ⟨hkeep, hbefore, hnone⟩ := meta_clear hm he title hclear hk hk'
  refine ⟨?_, ?_⟩
  · by_cases hkn : k = n
    · have hrep : ∀ d ∈ apartFrom (m.edits tags title e) n, d.start ≠ n := by
        intro d hd hdn
        obtain ⟨hd, hins⟩ := List.mem_filter.mp hd
        cases d with
        | insert p t =>
          have hp : (Edit.insert p t).insertsAt n = true := decide_eq_true hdn
          rw [hp] at hins
          cases hins
        | replace a b t =>
          have ha : (Edit.replace a b t).replacesAt k = true := decide_eq_true (hdn.trans hkn.symm)
          rcases List.mem_append.mp hd with hd | hd
          · rw [hnone _ hd] at ha
            cases ha
          · rw [replacesAt_laterEdits m tags k _ hd] at ha
            cases ha
      rw [if_pos hkn, hkn]
      exact before_eq_nil hrep
    · rw [if_neg hkn, before_apartFrom hkn, edits, before_append_of_inserts hnone, hbefore hkn,
        before_laterEdits_of_lt m tags (by omega)]
      rfl
  · rw [keeps_apartFrom, edits, keeps_append, hkeep, keeps_laterEdits]
    rfl

/-- **A line on which nothing else is edited is there as it was.** -/
theorem headerCode_eq_self (he : (MetaExport.all m).head? = some e) (tags title : Text) {n : Nat}
    (hn : m.text.isBoundary n = true)
    (halone : m.Alone e n (n + (Scenario.lineFrom m.text n).size)) :
    m.headerCode tags title e n = Scenario.lineFrom m.text n := by
  rw [headerCode_eq_weave hm he tags title hn halone.clear]
  refine Text.weave_eq_self fun k hk hk' => ?_
  by_cases hkn : k = n
  · exact if_pos hkn
  rw [if_neg hkn]
  have hlines : m.linesAt tags k = [] := by
    have hnone : (m.scenarios.filter fun c => c.start = k) = [] := by
      refine List.filter_eq_nil_iff.mpr fun c hc hck => ?_
      have hck' : c.start = k := of_decide_eq_true hck
      have := halone.scenarios c hc
      omega
    show Scenario.linesAt tags m.scenarios k = []
    rw [Scenario.linesAt, hnone]
    rfl
  unfold frontOf
  rw [hlines, List.append_nil]
  cases e with
  | inline s v o => rfl
  | unrecognized => rfl
  | aliased name =>
    show Meta.titleAt m title (m.objectOf? name) k = []
    unfold Meta.titleAt
    split
    · next o ho =>
      refine if_neg ?_
      rintro ⟨htitle, rfl⟩
      rcases halone.title name o rfl ho with h | h | h
      · rw [htitle] at h
        cases h
      · omega
      · omega
    · rfl

/-- **Every story of a regular module has its header line right behind its registration.** -/
theorem header (he : (MetaExport.all m).head? = some e) (tags title : Text) {c : Scenario}
    (hc : c ∈ m.scenarios) :
    m.Header tags title e (ending (m.edits tags title e) 0 m.text) c := by
  obtain ⟨x, hx, hstart⟩ := start_of_scenarios hc
  have hn : m.text.isBoundary c.start = true :=
    hstart ▸ hm.boundary_start (has_of_topLevel hx)
  refine ⟨⟨x, hx, hstart⟩, ?_, headerCode_eq_weave hm he tags title hn,
    headerCode_eq_self hm he tags title hn⟩
  obtain ⟨pre, later, hlater, hlines⟩ := exists_linesAt hc tags
  have hdrop : m.text.drop c.start = Scenario.lineFrom m.text c.start ++
      (m.text.drop c.start).dropWhile (· != '\n') := List.takeWhile_append_dropWhile.symm
  obtain ⟨front, back, hstands⟩ : ∃ front back, ending (m.edits tags title e) 0 m.text =
      front ++ (c.line tags ++ (later.flatMap (Scenario.line tags) ++
        ((if c.start = m.text.size then Story.importBlock else []) ++
          (m.headerCode tags title e c.start ++ back)))) := by
    refine ⟨passage (m.edits tags title e) 0 (m.text.take c.start) ++
      (insertions (Meta.edits m title e) c.start ++ pre), ending
        (apartFrom (m.edits tags title e) c.start)
          (c.start + (Scenario.lineFrom m.text c.start).size)
            ((m.text.drop c.start).dropWhile (· != '\n')), ?_⟩
    rw [ending_cut _ hn, ending_insertions, insertions_edits, hlines, hdrop, ending_append, ← hdrop]
    simp only [List.append_assoc]
    rfl
  exact ⟨front, later, _, hlater, hstands.trans (by rw [importBlock_headerCode])⟩

end Module

/-- **Every story that is registered has its header line right behind its registration**, with the
edits of what else stands on that line and with no others. -/
theorem transform_header (id text : Text) (tags : TagFilter) (title : Text → Text) {s : Story}
    (h : transform id text tags title = .ok (.story s)) :
    let m := Module.read id text
    ∃ e, (MetaExport.all m).head? = some e ∧ s.scenarios = m.scenarios.map Scenario.name ∧
      ∀ c ∈ m.scenarios, m.Header tags.render (title id) e s.code c := by
  intro m
  have hm : m.Regular := Module.regular_read id text
  have hstory : Story.ofModule m tags (title id) = .ok s := by
    unfold transform at h
    split at h
    · cases hs : Story.ofModule m tags (title id) with
      | error why =>
        rw [hs] at h
        cases h
      | ok s' =>
        rw [hs] at h
        rw [Transformed.story.inj (Except.ok.inj h)]
    · cases h
  cases he : (MetaExport.all m).head? with
  | none =>
    rw [Story.ofModule_noMeta (List.head?_eq_none_iff.mp he)] at hstory
    cases hstory
  | some e =>
    obtain ⟨hsound, s', hs', hcode, hnames⟩ := Story.ofModule_eq hm he tags (title id)
    obtain rfl : s = s' := Except.ok.inj (hstory.symm.trans hs')
    refine ⟨e, rfl, hnames, fun c hc => ?_⟩
    have hending : s.code = ending (m.edits tags.render (title id) e) 0 m.text := by
      rw [hcode, render_eq_passage hsound, ending, Nat.zero_add]
      rfl
    rw [hending]
    exact Module.header hm he tags.render (title id) hc

/-- two stories and the meta object on one line, and a story on a line of its own -/
def crowdedText : Text :=
  "export const A = {}; const meta = {}; export const B = {};\nexport const C = [\n];\nexport default meta;\n"

theorem transform_header_crowded : ∃ s,
    transform "a.stories.ts" crowdedText TagFilter.standard (fun _ => "T") = .ok (.story s) ∧
      ∃ e, (MetaExport.all (Module.read "a.stories.ts" crowdedText)).head? = some e ∧
        s.scenarios = (Module.read "a.stories.ts" crowdedText).scenarios.map Scenario.name ∧
          ∀ c ∈ (Module.read "a.stories.ts" crowdedText).scenarios,
            (Module.read "a.stories.ts" crowdedText).Header TagFilter.standard.render "T" e
              s.code c := by
  have hstory : (match transform "a.stories.ts" crowdedText TagFilter.standard (fun _ => "T") with
      | .ok (.story _) => true
      | _ => false) = true := by decide +kernel
  cases h : transform "a.stories.ts" crowdedText TagFilter.standard (fun _ => "T") with
  | error why =>
    rw [h] at hstory
    cases hstory
  | ok r =>
    cases r with
    | unchanged c =>
      rw [h] at hstory
      cases hstory
    | story s => exact ⟨s, rfl, transform_header _ _ _ _ h⟩

/-- a story and the meta object on one line -/
def sharedText : Text := "export const A = {}; const meta = {};\nexport default meta;\n"

/-- **The line is not kept as it is where the meta object stands on it**: the title comes between
its characters. -/
theorem header_not_verbatim :
    (Module.read "a.stories.ts" sharedText).hasErrors = false ∧ ∃ s c,
      transform "a.stories.ts" sharedText TagFilter.standard (fun _ => "T") = .ok (.story s) ∧
        c ∈ (Module.read "a.stories.ts" sharedText).scenarios ∧
          ∀ (front : Text) (later : List Scenario) (back : Text), s.code ≠
            front ++ (c.line TagFilter.standard.render ++
              (later.flatMap (Scenario.line TagFilter.standard.render) ++
                (Scenario.lineFrom sharedText c.start ++ back))) := by
  have hmem : (⟨"A", 0⟩ : Scenario) ∈ (Module.read "a.stories.ts" sharedText).scenarios := by
    decide +kernel
  have hstory : (match transform "a.stories.ts" sharedText TagFilter.standard (fun _ => "T") with
      | .ok (.story s) => !decide (Scenario.lineFrom sharedText 0 <:+: s.code)
      | _ => false) = true := by decide +kernel
  refine ⟨by decide +kernel, ?_⟩
  cases h : transform "a.stories.ts" sharedText TagFilter.standard (fun _ => "T") with
  | error why =>
    rw [h] at hstory
    cases hstory
  | ok r =>
    cases r with
    | unchanged c =>
      rw [h] at hstory
      cases hstory
    | story s =>
      rw [h] at hstory
      have hnot : ¬ Scenario.lineFrom sharedText 0 <:+: s.code := by simpa using hstory
      refine ⟨s, _, rfl, hmem, fun front later back hcode => hnot ?_⟩
      refine ⟨front ++ (Scenario.line TagFilter.standard.render ⟨"A", 0⟩ ++
        later.flatMap (Scenario.line TagFilter.standard.render)), back, ?_⟩
      rw [hcode]
      simp only [List.append_assoc]

end StorySuite
