import StorySuite.Proofs.Story.Edits

/-!
# The code of a test module

`Module.testCode` says what the code of a test module is, place by place and without patches: the
text of the module, with

* the title behind the brace of its meta object, unless that has one already;
* a variable around the meta object, if it is exported without one;
* the lines that register a story in front of the statement that declares it;
* the imports at the end.

`Module.Regular.ending_edits` says that the edits of a module make exactly this of its text,
`Story.code_eq_testCode` that it is the code of its test module.
-/

namespace StorySuite

namespace Meta

/-- the title in front of byte `n`, unless the object has one -/
def titleAt (m : Module) (title : Text) (o : Option Node) (n : Nat) : Text :=
  match o with
  | some o => if o.hasTitle m = false ∧ n = o.start + 1 then titleProperty title else []
  | none => []

/-- an exported value, with the title behind the brace of its object -/
def titledValue (m : Module) (title : Text) (v o : Node) : Text :=
  if o.hasTitle m = true then m.textOf v
  else m.text.slice v.start (o.start + 1) ++ titleProperty title ++
    m.text.slice (o.start + 1) v.stop

end Meta

namespace Module

/-- the object that a variable is given where it is first declared at the top level -/
def objectOf? (m : Module) (name : Text) : Option Node :=
  (m.declared? name).bind fun b => (b.declarator.child? .value).bind Node.objectLiteral?

/-- the lines in front of byte `n` -/
def linesAt (m : Module) (tags : Text) (n : Nat) : Text := Scenario.linesAt tags m.scenarios n

/-- **The code of a test module**, where `e` is the default export of the module. -/
def testCode (m : Module) (tags title : Text) : MetaExport → Text
  | .inline s v o =>
    (m.text.take s.start).weave (m.linesAt tags) 0 ++ m.linesAt tags s.start ++
      ("const __STORYBOOK_META__ = " ++ Meta.titledValue m title v o ++
        ";\nexport default __STORYBOOK_META__;") ++
      (m.text.drop s.stop).weave (m.linesAt tags) s.stop ++ m.linesAt tags m.text.size ++
      Story.importBlock
  | .aliased name =>
    let front n := Meta.titleAt m title (m.objectOf? name) n ++ m.linesAt tags n
    m.text.weave front 0 ++ front m.text.size ++ Story.importBlock
  | .unrecognized =>
    m.text.weave (m.linesAt tags) 0 ++ m.linesAt tags m.text.size ++ Story.importBlock

end Module

open Patch

section
variable (m : Module) (tags : Text)

theorem replacesAt_laterEdits (n : Nat) : ∀ e ∈ m.laterEdits tags, e.replacesAt n = false := by
  intro e he
  rcases List.mem_append.mp he with he | he
  · obtain ⟨s, -, rfl⟩ := List.mem_map.mp he
    rfl
  · rw [List.mem_singleton.mp he]
    rfl

theorem keeps_laterEdits (n : Nat) : keeps (m.laterEdits tags) n = true := by
  rw [Module.laterEdits, keeps_append, Scenario.keeps_edits]
  rfl

theorem before_laterEdits_of_lt {n : Nat} (hn : n < m.text.size) :
    before (m.laterEdits tags) n = m.linesAt tags n := by
  rw [Module.laterEdits, before_append_right fun e he => ?_]
  · exact Scenario.before_edits tags m.scenarios n
  · rw [List.mem_singleton.mp he]
    exact Nat.ne_of_gt hn

theorem before_laterEdits_size :
    before (m.laterEdits tags) m.text.size = m.linesAt tags m.text.size ++ Story.importBlock := by
  have h : ∀ e ∈ m.scenarios.map (Scenario.edit tags), e.replacesAt m.text.size = false := by
    intro e he
    obtain ⟨s, -, rfl⟩ := List.mem_map.mp he
    rfl
  rw [Module.laterEdits, before_append_of_inserts h, before_cons_insert, Scenario.before_edits]
  show _ ++ (Story.importBlock ++ []) = _
  rw [List.append_nil]
  rfl

theorem ending_laterEdits {n : Nat} {t : Text} (ht : n + t.size = m.text.size) :
    ending (m.laterEdits tags) n t =
      t.weave (m.linesAt tags) n ++ (m.linesAt tags m.text.size ++ Story.importBlock) := by
  rw [ending, ht, before_laterEdits_size]
  congr 1
  refine passage_eq_weave fun k _ hk => ⟨?_, keeps_laterEdits m tags k⟩
  exact before_laterEdits_of_lt m tags (by omega)

/-- what is made of the text when the meta object is only inserted to -/
theorem ending_of_inserts {es : List Edit} {front : Nat → Text}
    (hes : ∀ e ∈ es, ∃ n t, e = .insert n t) (hfront : ∀ n, before es n = front n) :
    ending (es ++ m.laterEdits tags) 0 m.text =
      m.text.weave (fun n => front n ++ m.linesAt tags n) 0 ++
        (front m.text.size ++ m.linesAt tags m.text.size) ++ Story.importBlock := by
  have hrep : ∀ n, ∀ e ∈ es, e.replacesAt n = false := by
    intro n e he
    obtain ⟨k, t, rfl⟩ := hes e he
    rfl
  have hkeep : ∀ n, keeps es n = true := fun n => List.all_eq_true.mpr fun e he => by
    obtain ⟨k, t, rfl⟩ := hes e he
    rfl
  have hpass : passage (es ++ m.laterEdits tags) 0 m.text =
      m.text.weave (fun n => front n ++ m.linesAt tags n) 0 := by
    refine passage_eq_weave fun n _ hn => ⟨?_, ?_⟩
    · rw [before_append_of_inserts (hrep n), hfront, before_laterEdits_of_lt m tags (by omega)]
    · rw [keeps_append, hkeep, keeps_laterEdits]
      rfl
  rw [ending, Nat.zero_add, before_append_of_inserts (hrep _), before_laterEdits_size, hfront,
    hpass]
  simp only [List.append_assoc]

end

/-! ## an exported object -/

namespace MetaExport.Inline

variable {m : Module} {s v o : Node} (h : Inline m s v o) (hm : m.Regular)
include h hm

/-- **The keyword is really replaced**: it does not come back in front of the value. -/
theorem ofOverwrite_opening :
    Edit.ofOverwrite m.text s.start v.start Meta.opening =
      [.replace s.start v.start Meta.opening] := by
  obtain ⟨hs, hv, -, h1, -⟩ := h.bounds hm
  obtain ⟨k, hk, hkind⟩ := List.any_eq_true.mp h.keyword
  have hkhas := hs.child hk
  obtain ⟨htext, hbefore⟩ := hm.keyword _ hs.choose_spec h.kind k hk (of_decide_eq_true hkind)
  have hkv := hbefore v h.value h.role
  have hsk := (hm.within hs hk).1
  have hkk := hm.start_le_stop hkhas
  have hcut : m.text.slice s.start v.start =
      m.text.slice s.start k.start ++ ("default".toList ++ m.text.slice k.stop v.start) := by
    rw [← htext]
    show _ = _ ++ (m.text.slice k.start k.stop ++ _)
    rw [Text.slice_trans (hm.boundary_start hkhas) (hm.boundary_stop hkhas)
      (hm.boundary_start hv) hkk hkv, Text.slice_trans (hm.boundary_start hs)
      (hm.boundary_start hkhas) (hm.boundary_start hv) hsk (Nat.le_trans hkk hkv)]
  unfold Edit.ofOverwrite
  cases hdrop : Text.dropTail? (m.text.slice s.start v.start) Meta.opening with
  | none => rfl
  | some u =>
    -- there is no `f` in the opening
    have hf : 'f' ∈ Meta.opening := by
      rw [Text.dropTail?_eq_some.mp hdrop, hcut]
      simp
    exact absurd hf (by decide)

theorem start_lt_value : s.start < v.start := by
  obtain ⟨hs, hv, -, h1, -⟩ := h.bounds hm
  have hmem : Edit.replace s.start v.start Meta.opening ∈
      Edit.ofOverwrite m.text s.start v.start Meta.opening := by
    rw [h.ofOverwrite_opening hm]
    exact List.mem_singleton.mpr rfl
  exact (Edit.fits_of_mem_ofOverwrite (hm.boundary_start hs) (hm.boundary_start hv) h1 hmem).2.2

/-- within the statement no other begins -/
theorem start_ne_of_laterEdits (tags : Text) {n : Nat} (h1 : s.start < n) (h2 : n < s.stop) :
    ∀ e ∈ m.laterEdits tags, e.start ≠ n := by
  intro e he hn
  rcases List.mem_append.mp he with he | he
  · obtain ⟨c, hc, rfl⟩ := List.mem_map.mp he
    have hn' : c.start = n := hn
    obtain ⟨x, hx, hstart⟩ := Module.start_of_scenarios hc
    have hx' := Module.topLevel_subset m x hx
    have := hm.start_le_stop ((Module.has_root m).child hx')
    rcases (hm.row_of_has (Module.has_root m)).apart hx' h.statement with rfl | h' | h'
    · omega
    · omega
    · omega
  · rw [List.mem_singleton.mp he] at hn
    have hn' : m.text.size = n := hn
    have := Text.le_size (hm.boundary_stop ((Module.has_root m).child h.statement))
    omega

/-! What is made of the text behind a place, from the end of the text to its beginning. -/

/-- behind the value -/
theorem ending_stop (tags : Text) :
    ending (Edit.ofOverwrite m.text v.stop s.stop Meta.closing ++ m.laterEdits tags) v.stop
        (m.text.drop v.stop) =
      Meta.closing ++ ending (m.laterEdits tags) s.stop (m.text.drop s.stop) := by
  obtain ⟨hs, hv, -, h1, h2, h3, h4, -⟩ := h.bounds hm
  have hbv := hm.boundary_stop hv
  have hbs := hm.boundary_stop hs
  have hsize : v.stop + (m.text.slice v.stop s.stop).size = s.stop := by
    rw [Text.size_slice hbv hbs h4]
    omega
  have hcut : m.text.drop v.stop = m.text.slice v.stop s.stop ++ m.text.drop s.stop :=
    (Text.slice_append_drop hbv hbs h4).symm
  have hne : ∀ n, v.stop ≤ n → n < s.stop → ∀ e ∈ m.laterEdits tags, e.start ≠ n :=
    fun n hn hn' => h.start_ne_of_laterEdits hm tags (by omega) hn'
  -- when the rest of the statement is kept, it is the end of the closing
  have hkept : ending (m.laterEdits tags) v.stop (m.text.drop v.stop) =
      m.text.slice v.stop s.stop ++ ending (m.laterEdits tags) s.stop (m.text.drop s.stop) := by
    rw [hcut, ending_append, hsize, passage_eq_self fun n hn hn' =>
      ⟨before_eq_nil (hne n hn (by omega)), keeps_laterEdits m tags n⟩]
  unfold Edit.ofOverwrite
  cases hdrop : Text.dropTail? (m.text.slice v.stop s.stop) Meta.closing with
  | some u =>
    rw [Text.dropTail?_eq_some.mp hdrop, List.append_assoc, ← hkept]
    cases u with
    | nil => rfl
    | cons c u => exact ending_insert _ _ _ _
  | none =>
    have hlt : v.stop < s.stop := by
      rcases Nat.lt_or_eq_of_le h4 with h | h
      · exact h
      · rw [h, Text.slice_self] at hdrop
        have h' := Text.dropTail?_append Meta.closing []
        rw [List.append_nil, hdrop] at h'
        cases h'
    show ending (.replace v.stop s.stop Meta.closing :: m.laterEdits tags) v.stop _ = _
    rw [hcut, ending_append, hsize, passage_replace hlt hsize hne,
      ending_congr fun n hn => replace_congr Meta.closing hlt hn]

/-- the replaced ranges and the later edits leave the value as it is -/
theorem untouched (tags : Text) {n : Nat} (h1 : v.start ≤ n) (h2 : n < v.stop) :
    before (Edit.ofOverwrite m.text s.start v.start Meta.opening ++
        (Edit.ofOverwrite m.text v.stop s.stop Meta.closing ++ m.laterEdits tags)) n = [] ∧
      keeps (Edit.ofOverwrite m.text s.start v.start Meta.opening ++
        (Edit.ofOverwrite m.text v.stop s.stop Meta.closing ++ m.laterEdits tags)) n = true := by
  obtain ⟨-, -, -, -, -, -, h4, -⟩ := h.bounds hm
  have hlt := h.start_lt_value hm
  have hclosing : ∀ e ∈ Edit.ofOverwrite m.text v.stop s.stop Meta.closing, n < e.start := by
    intro e he
    rw [Edit.start_of_mem_ofOverwrite he]
    exact h2
  have hlater := h.start_ne_of_laterEdits hm tags (show s.start < n by omega) (by omega)
  rw [h.ofOverwrite_opening hm, List.singleton_append, (replace_congr Meta.opening hlt h1).1,
    (replace_congr Meta.opening hlt h1).2]
  constructor
  · rw [before_append_left fun e he => Nat.ne_of_gt (hclosing e he), before_eq_nil hlater]
  · rw [keeps_append, keeps_laterEdits, keeps_of_lt hclosing]
    rfl

/-- from a place in the value on, when the title is done with -/
theorem ending_value (tags : Text) {k : Nat} (hk : m.text.isBoundary k = true)
    (h1 : v.start ≤ k) (h2 : k ≤ v.stop) :
    ending (Edit.ofOverwrite m.text s.start v.start Meta.opening ++
        (Edit.ofOverwrite m.text v.stop s.stop Meta.closing ++ m.laterEdits tags)) k
        (m.text.drop k) =
      m.text.slice k v.stop ++
        (Meta.closing ++ ending (m.laterEdits tags) s.stop (m.text.drop s.stop)) := by
  obtain ⟨hs, hv, -⟩ := h.bounds hm
  have hlt := h.start_lt_value hm
  have hbv := hm.boundary_stop hv
  have hsize : k + (m.text.slice k v.stop).size = v.stop := by
    rw [Text.size_slice hk hbv h2]
    omega
  rw [← Text.slice_append_drop hk hbv h2, ending_append, hsize,
    passage_eq_self fun n hn hn' => h.untouched hm tags (Nat.le_trans h1 hn) (by omega),
    ← h.ending_stop hm tags, h.ofOverwrite_opening hm, List.singleton_append,
    ending_congr fun n hn => replace_congr Meta.opening hlt (by omega)]

/-- from the value on -/
theorem ending_titled (tags title : Text) :
    ending (Meta.titleEdits m title o ++
        (Edit.ofOverwrite m.text s.start v.start Meta.opening ++
          (Edit.ofOverwrite m.text v.stop s.stop Meta.closing ++ m.laterEdits tags)))
        v.start (m.text.drop v.start) =
      Meta.titledValue m title v o ++
        (Meta.closing ++ ending (m.laterEdits tags) s.stop (m.text.drop s.stop)) := by
  obtain ⟨hs, hv, -, -, h2, h3, h4, hbrace⟩ := h.bounds hm
  have hbv := hm.boundary_start hv
  unfold Meta.titleEdits Meta.titledValue
  by_cases htitle : o.hasTitle m = true
  · rw [if_pos htitle, if_pos htitle]
    exact h.ending_value hm tags hbv (Nat.le_refl _) (hm.start_le_stop hv)
  · rw [if_neg htitle, if_neg htitle, List.singleton_append]
    have hsize : v.start + (m.text.slice v.start (o.start + 1)).size = o.start + 1 := by
      rw [Text.size_slice hbv hbrace (by omega)]
      omega
    rw [← Text.slice_append_drop hbv hbrace (by omega), ending_append, hsize, ending_insert,
      h.ending_value hm tags hbrace (by omega) h3, passage_eq_self fun n hn hn' => ?_]
    · simp only [List.append_assoc]
    · obtain ⟨hb, hk⟩ := h.untouched hm tags hn (by omega)
      have hne : (Edit.insert (o.start + 1) (Meta.titleProperty title)).start ≠ n :=
        Nat.ne_of_gt (show n < o.start + 1 by omega)
      exact ⟨by rw [before_cons_of_ne hne, hb], hk⟩

/-- **What is made of the statement and of all that comes behind it.** -/
theorem ending_start (tags title : Text) :
    ending (m.edits tags title (.inline s v o)) s.start (m.text.drop s.start) =
      m.linesAt tags s.start ++ (Meta.opening ++ (Meta.titledValue m title v o ++
        (Meta.closing ++ ending (m.laterEdits tags) s.stop (m.text.drop s.stop)))) := by
  obtain ⟨hs, hv, -, h1, h2, h3, h4, hbrace⟩ := h.bounds hm
  have hlt := h.start_lt_value hm
  have hbs := hm.boundary_start hs
  have hbv := hm.boundary_start hv
  have hsize : (m.text.slice s.start v.start).size = v.start - s.start :=
    Text.size_slice hbs hbv h1
  have hedits : m.edits tags title (.inline s v o) = Meta.titleEdits m title o ++
      (Edit.ofOverwrite m.text s.start v.start Meta.opening ++
        (Edit.ofOverwrite m.text v.stop s.stop Meta.closing ++ m.laterEdits tags)) := by
    rw [Module.edits, Meta.edits, List.append_assoc, List.append_assoc]
  have htitle : ∀ n, n < v.start → ∀ e ∈ Meta.titleEdits m title o, e.start ≠ n := by
    intro n hn e he
    rw [Meta.start_of_mem_titleEdits he]
    omega
  have hclosing : ∀ n, n < v.start →
      ∀ e ∈ Edit.ofOverwrite m.text v.stop s.stop Meta.closing, e.start ≠ n := by
    intro n hn e he
    rw [Edit.start_of_mem_ofOverwrite he]
    omega
  have hnot : ∀ e ∈ Edit.ofOverwrite m.text v.stop s.stop Meta.closing ++ m.laterEdits tags,
      e.replacesAt s.start = false := by
    intro e he
    rcases List.mem_append.mp he with he | he
    · exact Bool.eq_false_iff.mpr fun hr =>
        hclosing s.start hlt e he (Edit.start_of_replacesAt hr)
    · exact replacesAt_laterEdits m tags s.start e he
  have hhead : passage (m.edits tags title (.inline s v o)) s.start
      (m.text.slice s.start v.start) = m.linesAt tags s.start ++ Meta.opening := by
    have hend := Text.le_size hbv
    rw [hedits, h.ofOverwrite_opening hm, List.singleton_append, passage_eq_before]
    · rw [before_append_left (htitle s.start hlt), before_cons_replace hnot,
        before_append_left (hclosing s.start hlt), before_laterEdits_of_lt m tags (by omega)]
    · omega
    · intro n hn hn'
      rw [keeps_append, keeps_cons_replace hn (by omega), Bool.and_false]
    · intro n hn hn'
      have hne : (Edit.replace s.start v.start Meta.opening).start ≠ n := Nat.ne_of_lt hn
      rw [before_append_left (htitle n (by omega)), before_cons_of_ne hne,
        before_append_left (hclosing n (by omega)),
        before_eq_nil (h.start_ne_of_laterEdits hm tags hn (by omega))]
  rw [← Text.slice_append_drop hbs hbv h1, ending_append, hhead, hsize, Nat.add_sub_cancel' h1,
    hedits, h.ending_titled hm tags title, List.append_assoc]

/-- **What the edits make of a text whose meta object is exported without a name.** -/
theorem ending_eq_testCode (tags title : Text) :
    ending (m.edits tags title (.inline s v o)) 0 m.text =
      m.testCode tags title (.inline s v o) := by
  obtain ⟨hs, hv, -, h1, h2, h3, h4, hbrace⟩ := h.bounds hm
  have hbs := hm.boundary_start hs
  have hend := Text.le_size hbs
  have htake := Text.size_take hbs
  -- in front of the statement there are only the later edits
  have hmeta : ∀ e ∈ Meta.edits m title (.inline s v o), s.start ≤ e.start :=
    fun e he => (Meta.within_of_mem_edits hm h he).le_start
  have hfront : passage (m.edits tags title (.inline s v o)) 0 (m.text.take s.start) =
      (m.text.take s.start).weave (m.linesAt tags) 0 := by
    refine passage_eq_weave fun n _ hn => ⟨?_, ?_⟩
    · rw [Module.edits, before_append_left fun e he => Nat.ne_of_gt ?_,
        before_laterEdits_of_lt m tags (by omega)]
      exact Nat.lt_of_lt_of_le (by omega) (hmeta e he)
    · rw [Module.edits, keeps_append, keeps_laterEdits, keeps_of_lt fun e he => ?_]
      · rfl
      · exact Nat.lt_of_lt_of_le (by omega) (hmeta e he)
  rw [ending_cut _ hbs, hfront, h.ending_start hm, ending_laterEdits m tags (Text.size_drop (hm.boundary_stop hs)),
    Module.testCode]
  simp only [List.append_assoc]
  rfl

end MetaExport.Inline

/-! ## the whole code -/

variable {m : Module}

theorem Module.Regular.objectOf?_eq (hm : m.Regular) (name : Text) :
    Meta.objectOf? (Bindings.ofModule m) name = m.objectOf? name := by
  rw [Meta.objectOf?, Bindings.get?_ofModule hm]
  rfl

theorem before_titleEdits (m : Module) (title : Text) (o : Option Node) (n : Nat) :
    before ((o.map (Meta.titleEdits m title)).getD []) n = Meta.titleAt m title o n := by
  cases o with
  | none => rfl
  | some o =>
    show before (Meta.titleEdits m title o) n = _
    unfold Meta.titleEdits Meta.titleAt
    by_cases ht : o.hasTitle m = true
    · rw [if_pos ht]
      exact (if_neg fun h => Bool.false_ne_true (h.1.symm.trans ht)).symm
    · rw [if_neg ht]
      have hf := Bool.eq_false_iff.mpr ht
      by_cases hn : n = o.start + 1
      · rw [hn, before_cons_insert]
        exact (List.append_nil _).trans (if_pos ⟨hf, rfl⟩).symm
      · have hne : (Edit.insert (o.start + 1) (Meta.titleProperty title)).start ≠ n :=
          fun h => hn h.symm
        rw [before_cons_of_ne hne]
        exact (if_neg fun h => hn h.2).symm

/-- **The edits of a module make its test code of its text.** -/
theorem Module.Regular.ending_edits (hm : m.Regular) {e : MetaExport}
    (he : (MetaExport.all m).head? = some e) (tags title : Text) :
    ending (m.edits tags title e) 0 m.text = m.testCode tags title e := by
  cases e with
  | unrecognized =>
    exact ending_laterEdits m tags (Nat.zero_add _) |>.trans (List.append_assoc _ _ _).symm
  | aliased name =>
    rw [Module.edits, Meta.edits_aliased, hm.objectOf?_eq,
      ending_of_inserts m tags ?_ (before_titleEdits m title (m.objectOf? name))]
    · rfl
    · intro d hd
      cases ho : m.objectOf? name with
      | none =>
        rw [ho] at hd
        cases hd
      | some o =>
        rw [ho] at hd
        have hd' : d ∈ Meta.titleEdits m title o := hd
        unfold Meta.titleEdits at hd'
        split at hd'
        · cases hd'
        · exact ⟨_, _, List.mem_singleton.mp hd'⟩
  | inline s v o =>
    exact (MetaExport.inline_of_mem_all (List.mem_of_mem_head? he)).ending_eq_testCode hm tags title

namespace Story

/-- **The code of the test module of a regular module**, for whichever default export comes
first. -/
theorem code_eq_testCode (hm : m.Regular) {tags : TagFilter} {title : Text} {s : Story}
    (h : ofModule m tags title = .ok s) :
    ∃ e, (MetaExport.all m).head? = some e ∧ s.code = m.testCode tags.render title e := by
  cases he : (MetaExport.all m).head? with
  | none =>
    rw [ofModule_noMeta (List.head?_eq_none_iff.mp he)] at h
    cases h
  | some e =>
    obtain ⟨hsound, s', hs', hcode, -⟩ := ofModule_eq hm he tags title
    obtain rfl : s = s' := Except.ok.inj (h.symm.trans hs')
    refine ⟨e, rfl, ?_⟩
    rw [hcode, render_eq_passage hsound, ← hm.ending_edits he, ending, Nat.zero_add]
    rfl

end Story

/-- **The code of the test module of a story module** is its text with the changes of
`Module.testCode` and no others. -/
theorem transform_code (id text : Text) (tags : TagFilter) (title : Text → Text) {s : Story}
    (h : transform id text tags title = .ok (.story s)) :
    ∃ e, (MetaExport.all (Module.read id text)).head? = some e ∧
      s.code = (Module.read id text).testCode tags.render (title id) e := by
  unfold transform at h
  split at h
  · cases hs : Story.ofModule (Module.read id text) tags (title id) with
    | error why =>
      rw [hs] at h
      cases h
    | ok s' =>
      rw [hs] at h
      obtain rfl : s' = s := Transformed.story.inj (Except.ok.inj h)
      exact Story.code_eq_testCode (Module.regular_read id text) hs
  · cases h

/-- a text whose meta object and stories share a line -/
def sampleText : Text := "const a = {}; /* é */ export default { x: [a] } as T;\nexport { a as B }"

theorem transform_code_sample : ∃ s e,
    transform "a.stories.ts" sampleText TagFilter.standard (fun _ => "T") = .ok (.story s) ∧
      (MetaExport.all (Module.read "a.stories.ts" sampleText)).head? = some e ∧
        s.code = (Module.read "a.stories.ts" sampleText).testCode TagFilter.standard.render "T" e := by
  have hstory : (match transform "a.stories.ts" sampleText TagFilter.standard (fun _ => "T") with
      | .ok (.story _) => true
      | _ => false) = true := by decide +kernel
  cases h : transform "a.stories.ts" sampleText TagFilter.standard (fun _ => "T") with
  | error why =>
    rw [h] at hstory
    cases hstory
  | ok r =>
    cases r with
    | unchanged c =>
      rw [h] at hstory
      cases hstory
    | story s =>
      obtain ⟨e, h1, h2⟩ := transform_code _ _ _ _ h
      exact ⟨s, e, rfl, h1, h2⟩

end StorySuite
