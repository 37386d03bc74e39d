import Classwright.Proofs.Frames.Receiver

/-! # Objects and their sites

In frames an object that is not initialized goes by the index of the `new` instruction that made it, its site. A loop makes
many objects at one site, and frames cannot tell them apart. They need not: no frame at a `new` instruction holds an object
of its own, so of all objects of a site only the last one is known as such.

To say so, a path is written out as code without branches. There every object has a site of its own, the step that made it,
and a constructor call initializes just the object that it is made on. The frames that are found never take an object for
initialized that is not so on the path. -/

namespace Classwright

/-! ### Fresh objects -/

theorem VType.ne_uninitialized {v : VType} (h : v.isUninitialized = false) (site : Nat) : v ≠ .uninitialized site := by
  rintro rfl
  cases h

namespace Dataflow
variable {m : MethodHead} {code : Array Instr} {p : Placement} {entry f : Frame} {d d' : Dataflow} {t : Nat}
  {R : Frame → Frame → Prop}

/-- If the value is an object that is not initialized, its site is a `new` instruction that has a frame. -/
def LiveSite (code : Array Instr) (d : Dataflow) (v : VType) : Prop :=
  ∀ site, v = .uninitialized site → d.isLive site = true ∧ ∃ name, code[site]? = some (.type .new name)

theorem liveSite_of_initialized {v : VType} (h : v.isUninitialized = false) : LiveSite code d v :=
  fun site hv => absurd hv (VType.ne_uninitialized h site)

/-- Objects that are not initialized have a site that control can come to, and none is found at its own site. -/
structure Fresh (code : Array Instr) (d : Dataflow) : Prop where
  size : d.frames.size = code.size
  sited : ∀ i f, d.frameAt i = some f → f.Only (LiveSite code d)
  absent : ∀ i f, d.frameAt i = some f → f.Only (· ≠ .uninitialized i)

theorem Advances.isLive {ts : List Nat} (A : Advances R f ts d d') {i : Nat} (h : d.isLive i = true) :
    d'.isLive i = true := by
  obtain ⟨g, hg⟩ := Option.isSome_iff_exists.mp h
  obtain ⟨g', hg', -⟩ := A.kept i g hg
  exact Option.isSome_iff_exists.mpr ⟨g', hg'⟩

theorem Advances.liveSite {ts : List Nat} (A : Advances R f ts d d') {v : VType} (h : LiveSite code d v) :
    LiveSite code d' v := by
  intro site hv
  obtain ⟨hlive, hnew⟩ := h site hv
  exact ⟨A.isLive hlive, hnew⟩

/-- The first frame that reaches a place has no object of that place, and what is joined to it later brings none. -/
theorem Fresh.reach (hd : Fresh code d) (ht : t < d.frames.size) (hf : f.Only (LiveSite code d))
    (h : d.reach t f = .ok d') : Fresh code d' := by
  have A := Advances.of_reach Frame.joinOrder_below ht h
  rcases reach_eq_ok h with ⟨g, hg, rfl⟩ | ⟨_, -, -, rfl⟩
  · have hsited : g.Only (LiveSite code d) := by
      rcases hg with ⟨-, rfl⟩ | ⟨present, hpresent, hj, -⟩
      · exact hf
      · exact (hd.sited t present hpresent).of_below (fun _ => liveSite_of_initialized) (Frame.join_below hj).1
    have habsent : g.Only (· ≠ .uninitialized t) := by
      rcases hg with ⟨hnone, rfl⟩ | ⟨present, hpresent, hj, -⟩
      · refine hf.imp fun v hv heq => ?_
        have hlive := (hv t heq).1
        rw [isLive, hnone] at hlive
        cases hlive
      · exact (hd.absent t present hpresent).of_below (fun v hv => VType.ne_uninitialized hv t) (Frame.join_below hj).1
    refine ⟨A.size.trans hd.size, fun i f' hf' => ?_, fun i f' hf' => ?_⟩
    · rw [frameAt_set d ht] at hf'
      split at hf'
      · cases hf'
        exact hsited.imp fun v => A.liveSite
      · exact (hd.sited i f' hf').imp fun v => A.liveSite
    · rw [frameAt_set d ht] at hf'
      split at hf'
      · rename_i hi
        cases hf'
        exact hi ▸ habsent
      · exact hd.absent i f' hf'
  · exact hd

theorem Sent.fresh {ts : List Nat} (h : Sent f ts d d') (hts : ∀ t ∈ ts, t < d.frames.size) (hd : Fresh code d)
    (hf : f.Only (LiveSite code d)) : Fresh code d' := by
  induction h with
  | nil d => exact hd
  | cons hr _ ih =>
    obtain ⟨ht, hts⟩ := List.forall_mem_cons.mp hts
    have A := Advances.of_reach Frame.joinOrder_below ht hr
    exact ih (fun t' ht' => A.size ▸ hts t' ht') (hd.reach ht hf hr) (hf.imp fun v => A.liveSite)

theorem Fresh.visit (hp : ∀ l j, p.position? l = some j → j < code.size) {i : Nat} {rest : List Nat} {instr : Instr}
    (hd : Fresh code d) (hi : code[i]? = some instr) (hf : d.frameAt i = some f)
    (h : Dataflow.visit m code p { d with pending := rest } i instr f = .ok d') : Fresh code d' := by
  obtain ⟨after, ts, ha, -, hlt, hs⟩ := visit_eq_ok hp hi h
  have hnew : ∀ name, instr = .type .new name → LiveSite code d (.uninitialized i) := by
    rintro name rfl site ⟨⟩
    exact ⟨Option.isSome_iff_exists.mpr ⟨f, hf⟩, name, hi⟩
  have hafter : Meets (Frame.Only (LiveSite code d)) _ (f.apply m code i instr) :=
    (hd.sited i f hf).apply (fun _ => liveSite_of_initialized) hnew
  rw [ha] at hafter
  exact hs.fresh (fun t ht => hd.size ▸ hlt t ht) ⟨hd.size, hd.sited, hd.absent⟩ hafter

theorem fresh_of_analyze (hp : ∀ l j, p.position? l = some j → j < code.size)
    (hentry : entry.Only fun v => ∀ site, v ≠ .uninitialized site) (h : analyze m code p entry = .ok d) :
    Fresh code d := by
  rw [← analyzeIn_first] at h
  refine analyzeIn_keeps hp (fun _ => ⟨by simp [start], ?_, ?_⟩) (fun hd _ hi hf hv => hd.visit hp hi hf hv) h
  · exact all_start (P := fun _ f => f.Only (LiveSite code (start code entry)))
      (hentry.imp fun v hv site heq => absurd heq (hv site))
  · exact all_start (P := fun i f => f.Only (· ≠ .uninitialized i)) (hentry.imp fun v hv => hv 0)

end Dataflow

/-! ### Paths without branches -/

/-- The instructions that a path passes, one after another. -/
def unrolled (code : Array Instr) (is : List Nat) : Array Instr := (is.map fun i => code.getD i (.op .nop)).toArray

theorem Path.lt_size {code : Array Instr} {p : Placement} {is : List Nat} {i : Nat} (path : Path code p is i) :
    ∀ k ∈ is, k < code.size := by
  induction path with
  | start =>
    intro k hk
    cases hk
  | step _ he ih =>
    intro k hk
    rcases List.mem_append.mp hk with hk | hk
    · exact ih k hk
    · obtain rfl := List.mem_singleton.mp hk
      cases he with
      | next h _ => exact (Array.getElem?_eq_some_iff.mp h).1
      | jump h _ => exact (Array.getElem?_eq_some_iff.mp h).1

/-- Each step of a path is the instruction that it passes. -/
theorem Path.getElem?_unrolled {code : Array Instr} {p : Placement} {is : List Nat} {i : Nat} (path : Path code p is i)
    {n k : Nat} (hk : is[n]? = some k) : (unrolled code is)[n]? = code[k]? := by
  have hlt := path.lt_size k (List.mem_of_getElem? hk)
  simp [unrolled, hk, hlt]

namespace VType

/-- A value on a path that is written out, and the value that is found where the path has come to. Where an object is found
    that is not initialized, the path has the last one that it made at the site. -/
inductive Tracks (is : List Nat) : VType → VType → Prop
  | value {a b : VType} (h : Below a b) (hb : ∀ site, b ≠ .uninitialized site) : Tracks is a b
  | object {before after : List Nat} {site : Nat} (h : is = before ++ site :: after) (hlast : site ∉ after) :
      Tracks is (.uninitialized before.length) (.uninitialized site)

namespace Tracks
variable {is : List Nat} {a b c : VType}

/-- Steps at which a path passes places for the last time are the same just if the places are. -/
theorem last_iff {before after before' after' : List Nat} {s s' : Nat}
    (h : before ++ s :: after = before' ++ s' :: after') (hs : s ∉ after) (hs' : s' ∉ after') :
    before.length = before'.length ↔ s = s' := by
  constructor
  · intro hlength
    have hrest := (List.append_inj h hlength).2
    exact (List.cons.inj hrest).1
  · rintro rfl
    -- Both lists after the place are what a search from the end passes over.
    have hindex {xs ys : List Nat} (hy : s ∉ ys) : (xs ++ s :: ys).reverse.idxOf s = ys.length := by
      have hreverse : (xs ++ s :: ys).reverse = ys.reverse ++ s :: xs.reverse := by simp
      rw [hreverse, List.idxOf_append_of_notMem (by simpa using hy), List.idxOf_cons_self]
      simp
    have hafter : after.length = after'.length := by rw [← hindex hs, h, hindex hs']
    have htotal := congrArg List.length h
    simp only [List.length_append, List.length_cons] at htotal
    omega

theorem of_site {site : Nat} (h : Tracks is a (.uninitialized site)) :
    ∃ before after, is = before ++ site :: after ∧ site ∉ after ∧ a = .uninitialized before.length := by
  generalize hb : VType.uninitialized site = b at h
  cases h with
  | value _ hno => exact absurd hb.symm (hno site)
  | object his hlast =>
    cases hb
    exact ⟨_, _, his, hlast, rfl⟩

/-- What is not initialized on the path is not found as an initialized object. -/
theorem ne_object {step : Nat} (h : Tracks is (.uninitialized step) b) (name : String) : b ≠ .object name := by
  rintro rfl
  cases h with
  | value h _ => cases h

/-- Another step makes no difference to values that are not from there. -/
theorem passed {i : Nat} (h : Tracks is a b) (hb : b ≠ .uninitialized i) : Tracks (is ++ [i]) a b := by
  cases h with
  | value h hno => exact .value h hno
  | @object before after site his hlast =>
    have his' : is ++ [i] = before ++ site :: (after ++ [i]) := by simp [his]
    refine .object his' fun hmem => ?_
    rcases List.mem_append.mp hmem with hmem | hmem
    · exact hlast hmem
    · exact hb (congrArg _ (List.mem_singleton.mp hmem))

theorem made (is : List Nat) (i : Nat) : Tracks (is ++ [i]) (.uninitialized is.length) (.uninitialized i) :=
  .object rfl List.not_mem_nil

theorem below (h : Tracks is a b) (hbc : Below b c) : Tracks is a c := by
  cases h with
  | value h hno => exact .value (h.trans hbc) fun site hc => hno site ((hbc.eq_iff rfl).mpr hc)
  | object his hlast =>
    cases hbc
    exact .object his hlast

/-- An object that is not initialized is in the same places on the path. -/
theorem eq_iff {d : VType} (hab : Tracks is a b) (hb : b.isUninitialized = true) (hcd : Tracks is c d) :
    c = a ↔ d = b := by
  cases hab with
  | value h hno =>
    obtain rfl := (h.eq_iff hb).mpr rfl
    cases hcd with
    | value hcd _ => exact hcd.eq_iff hb
    | object _ _ =>
      cases a with
      | uninitialized site => exact absurd rfl (hno site)
      | _ => simp
  | object his hlast =>
    cases hcd with
    | value hcd hno =>
      exact ⟨fun heq => absurd ((hcd.eq_iff rfl).mp heq) (hno _), fun heq => absurd heq (hno _)⟩
    | object his' hlast' =>
      simp only [VType.uninitialized.injEq]
      exact last_iff (his'.symm.trans his) hlast' hlast

end Tracks

end VType

namespace Frame
variable {R S : VType → VType → Prop} {m : MethodHead} {code code' : Array Instr} {u f g : Frame} {is : List Nat}

theorem Related.imp_of_only {P : VType → Prop} (h : u.Related R f) (hf : f.Only P) (hRS : ∀ a b, R a b → P b → S a b) :
    u.Related S f := by
  refine ⟨fun slot => (h.locals slot).imp_left fun hab => hRS _ _ hab (hf.locals slot), ?_⟩
  have hflip := (List.forall₂_and_left _ _).mpr ⟨hf.stack, h.stack.flip⟩
  exact (hflip.imp fun b a hab => hRS a b hab.2 hab.1).flip

theorem Related.trans_below (h : u.Related R f) (hb : f.Below g) (hRS : ∀ a b c, R a b → VType.Below b c → S a c) :
    u.Related S g := by
  refine ⟨fun slot => ?_, ?_⟩
  · rcases VType.belowLocal_iff.mp (hb.locals slot) with hbc | htop
    · rcases h.locals slot with hab | htop
      · exact .inl (hRS _ _ _ hab hbc)
      · rw [htop] at hbc
        generalize g.getLocal slot = c at hbc ⊢
        cases hbc
        exact .inr rfl
    · exact .inr htop
  · refine (forall₂_comp h.stack hb.stack).imp fun a c hac => ?_
    obtain ⟨b, hab, hbc⟩ := hac
    exact hRS a b c hab hbc

/-- A slot or a place on the stack has `a` in the first frame and `b` in the second. -/
def Facing (u f : Frame) (a b : VType) : Prop :=
  (∃ slot, u.getLocal slot = a ∧ f.getLocal slot = b) ∨ ∃ n : Nat, u.stack[n]? = some a ∧ f.stack[n]? = some b

theorem Related.facing {a b : VType} (h : u.Related R f) (hab : u.Facing f a b) (hb : b ≠ .top) : R a b := by
  rcases hab with ⟨slot, rfl, rfl⟩ | ⟨n, ha, hb'⟩
  · exact (h.locals slot).resolve_right hb
  · obtain ⟨hn, rfl⟩ := List.getElem?_eq_some_iff.mp ha
    obtain ⟨hn', rfl⟩ := List.getElem?_eq_some_iff.mp hb'
    exact h.stack.get hn hn'

/-- Related frames have related receivers. -/
theorem Related.receiver? (K : OneKind R) (h : u.Related R f) {member : MemberRef} {b : VType}
    (hb : f.receiver? member.descriptor = some b) : ∃ a, u.receiver? member.descriptor = some a ∧ R a b := by
  unfold Frame.receiver? at hb
  split at hb
  · rename_i params result hd
    obtain ⟨f₁, hargs, hhead⟩ := Option.bind_eq_some_iff.mp hb
    obtain ⟨u₁, hargs', h₁⟩ := h.popArgs K params.reverse f₁ (toOption_eq_some.mp hargs)
    rw [receiver?_eq hd hargs']
    have hstack := h₁.stack
    generalize u₁.stack = xs at hstack
    generalize f₁.stack = ys at hstack hhead
    cases hstack with
    | nil => cases hhead
    | cons hab _ =>
      cases hhead
      exact ⟨_, rfl, hab⟩
  · cases hb

/-- In code that has the instructions of a path as its steps, constructor calls find the same places. -/
theorem alike_tracks (hcode : ∀ n k : Nat, is[n]? = some k → code'[n]? = code[k]?) :
    Alike m code' code (VType.Tracks is) where
  self t ht := .value (.refl t) (VType.ne_uninitialized ht)
  kind a b hab k := by
    cases hab with
    | value h _ => exact h.hasKind_eq k
    | object _ _ => cases k <;> rfl
  init := by
    intro a b t hab hinit
    refine ⟨?_, hab.eq_iff (isUninitialized_of_initializedType hinit)⟩
    cases hab with
    | value h hno =>
      obtain rfl := (h.eq_iff (isUninitialized_of_initializedType hinit)).mpr rfl
      cases a with
      | uninitializedThis => exact hinit
      | uninitialized site => exact absurd rfl (hno site)
      | _ => cases hinit
    | @object before after site his _ =>
      have hsite : code'[before.length]? = code[site]? := hcode _ _ (by simp [his])
      rwa [initializedType, hsite]

end Frame

namespace Dataflow
variable {m : MethodHead} {code code' : Array Instr} {p : Placement} {entry : Frame} {d : Dataflow} {is : List Nat}
  {i : Nat}

/-- What is found along a path tracks the path when it is written out. The code may go on behind it. -/
theorem Fixpoint.tracks (fix : Fixpoint m code p entry d) (hd : Fresh code d)
    (hentry : entry.Only fun v => ∀ site, v ≠ .uninitialized site) (path : Path code p is i)
    (hcode : ∀ n k : Nat, is[n]? = some k → code'[n]? = code[k]?) :
    ∃ u f, entry.along m code' (List.range is.length) = .ok u ∧ d.frameAt i = some f ∧
      u.Related (VType.Tracks is) f := by
  induction path with
  | start =>
    obtain ⟨f, hf, hb⟩ := fix.entry
    have honly : f.Only fun v => ∀ site, v ≠ .uninitialized site :=
      hentry.of_below (fun _ => VType.ne_uninitialized) hb
    exact ⟨entry, f, rfl, hf, (Frame.below_iff_related.mp hb).imp_of_only honly fun a b hab hb => .value hab hb⟩
  | @step is i j path he ih =>
    obtain ⟨u, f, hu, hf, htracks⟩ := ih fun n k hk =>
      hcode n k (by rw [List.getElem?_append_left (List.getElem?_eq_some_iff.mp hk).1, hk])
    obtain ⟨instr, after, hi, ha, hsent⟩ := fix.fits i f hf
    obtain ⟨g, hg, hb⟩ := hsent j he
    have hstep : code'[is.length]? = some instr := (hcode is.length i (by simp)).trans hi
    -- No object of this place is in the frame, so those that are there stay the last ones of their sites.
    have htracks' : u.Related (VType.Tracks (is ++ [i])) f :=
      htracks.imp_of_only (hd.absent i f hf) fun a b => VType.Tracks.passed
    have hreturn : instr = .op .returnVoid → m.isConstructor = false := by
      rintro rfl
      rcases (edge_iff hi).mp he with ⟨op, l, heq, -⟩ | ⟨hfalls, -⟩
      · cases heq
      · cases hfalls
    have happly : Follows (Frame.Related (VType.Tracks (is ++ [i]))) (u.apply m code' is.length instr)
        (f.apply m code i instr) :=
      htracks'.apply (Frame.alike_tracks hcode) (fun name _ => .made is i) hreturn
    obtain ⟨u', hu', hafter⟩ := happly after ha
    refine ⟨u', g, ?_, hg, hafter.trans_below hb fun a b c => VType.Tracks.below⟩
    rw [List.length_append, List.length_singleton, List.range_succ]
    exact Frame.along_concat hu hstep hu'

/-- A call at the end of a path that finds an object of a site is made on the last object of the site, and all that it finds
    there is this object. -/
theorem Fixpoint.call_on_last (fix : Fixpoint m code p entry d) {u f : Frame} {op : Opcode} {member : MemberRef}
    {site : Nat} (hcode : ∀ n k : Nat, is[n]? = some k → code'[n]? = code[k]?) (htracks : u.Related (VType.Tracks is) f)
    (hf : d.frameAt i = some f) (hi : code[i]? = some (.invoke op member))
    (hr : f.receiver? member.descriptor = some (.uninitialized site)) :
    ∃ before after u' f', is = before ++ site :: after ∧ site ∉ after ∧
      u.receiver? member.descriptor = some (.uninitialized before.length) ∧
      (∀ v, u.Facing f v (.uninitialized site) → v = .uninitialized before.length) ∧
      u.apply m code' is.length (.invoke op member) = .ok u' ∧ f.apply m code i (.invoke op member) = .ok f' ∧
      ∀ step name, ¬u'.Facing f' (.uninitialized step) (.object name) := by
  have A := Frame.alike_tracks (m := m) hcode
  obtain ⟨a, ha, hat⟩ := htracks.receiver? A.kind hr
  obtain ⟨before, after, his, hlast, rfl⟩ := hat.of_site
  obtain ⟨instr, f', hi', hf', -⟩ := fix.fits i f hf
  cases hi.symm.trans hi'
  have happly : Follows (Frame.Related (VType.Tracks is)) (u.apply m code' is.length (.invoke op member))
      (f.apply m code i (.invoke op member)) :=
    htracks.apply A (fun name heq => by cases heq) fun heq => by cases heq
  obtain ⟨u', hu', htracks'⟩ := happly f' hf'
  refine ⟨before, after, u', f', his, hlast, ha, fun v hv => ?_, hu', hf', fun step name hfacing => ?_⟩
  · exact (hat.eq_iff rfl (htracks.facing hv (by simp))).mpr rfl
  · exact (htracks'.facing hfacing (by simp)).ne_object name rfl

/-- The frames that are found keep objects of a site apart, if there is none in the first frame. At a `new` instruction none
    of its own objects is found, and those that are found elsewhere come from an instruction that control can come to. On
    a path that is written out every object has a site of its own. A constructor call at its end is made on the last
    object of the site, which is all that the frame has for the site. So whatever the call initializes in the frame, it
    initializes on the path. -/
theorem allocation_sites_kept_apart {c : Code} (hp : c.placement = .ok p)
    (hentry : ∀ site, .uninitialized site ∉ entry.locals ++ entry.stack) (h : analyze m c.instrs p entry = .ok d) :
    (∀ k name f, c.instrs[k]? = some (.type .new name) → d.frameAt k = some f →
      .uninitialized k ∉ f.locals ++ f.stack) ∧
    (∀ i f k, d.frameAt i = some f → .uninitialized k ∈ f.locals ++ f.stack →
      d.isLive k = true ∧ ∃ name, c.instrs[k]? = some (.type .new name)) ∧
    ∀ is i, Path c.instrs p is i → ∃ u f, entry.along m (unrolled c.instrs is) (List.range is.length) = .ok u ∧
      d.frameAt i = some f ∧ u.Related (VType.Tracks is) f ∧
      ∀ op member site, c.instrs[i]? = some (.invoke op member) → op ≠ .invokestatic → member.name = Name.init →
        f.receiver? member.descriptor = some (.uninitialized site) →
        ∃ before after u' f', is = before ++ site :: after ∧ site ∉ after ∧
          u.receiver? member.descriptor = some (.uninitialized before.length) ∧
          (∀ v, u.Facing f v (.uninitialized site) → v = .uninitialized before.length) ∧
          u.apply m (unrolled c.instrs is) is.length (.invoke op member) = .ok u' ∧
          f.apply m c.instrs i (.invoke op member) = .ok f' ∧
          ∀ step name, ¬u'.Facing f' (.uninitialized step) (.object name) := by
  have honly : entry.Only fun v => ∀ site, v ≠ .uninitialized site :=
    .of_forall_mem (fun site => by simp) fun v hv site heq => hentry site (heq ▸ hv)
  have hfresh := fresh_of_analyze (c.position?_lt hp) honly h
  have fix := analyze_fixpoint (c.position?_lt hp) h
  refine ⟨fun k name f _ hf hmem => ?_, fun i f k hf hmem => ?_, fun is i path => ?_⟩
  · exact (hfresh.absent k f hf).of_mem hmem rfl
  · exact (hfresh.sited i f hf).of_mem hmem k rfl
  · have hcode (n k : Nat) (hk : is[n]? = some k) := path.getElem?_unrolled hk
    obtain ⟨u, f, hu, hf, htracks⟩ := fix.tracks hfresh honly path hcode
    exact ⟨u, f, hu, hf, htracks, fun op member site hi _ _ hr => fix.call_on_last hcode htracks hf hi hr⟩

def remakingCall : Instr := .invoke .invokespecial ⟨"demo/Node", Name.init, "()V", false⟩

/-- Makes an object again and again and keeps the one before in a slot, until its parameter is zero. Then it calls a
    constructor on the last one. -/
def remaking : Code :=
  ⟨#[.mark ⟨0⟩, .type .new "demo/Node", .load .int 0, .jump .ifeq ⟨1⟩, .store .ref 1, .jump .goto ⟨0⟩, .mark ⟨1⟩,
    .op .dup, remakingCall, .op .pop, .op .returnVoid], 2⟩

def remakingHead : MethodHead := ⟨"demo/Main", "remake", "(I)V", true⟩

def remakingLabels : Placement := ⟨#[some 0, some 6]⟩

/-- A path that goes around the loop once. -/
def remakingPath : List Nat := [0, 1, 2, 3, 4, 5, 0, 1, 2, 3, 6, 7]

theorem remaking_path : Path remaking.instrs remakingLabels remakingPath 8 := by
  have around : Path remaking.instrs remakingLabels [0, 1, 2, 3, 4, 5] 0 :=
    .step (.step (.step (.step (.step (.step .start (.next rfl rfl)) (.next rfl rfl)) (.next rfl rfl)) (.next rfl rfl))
      (.next rfl rfl)) (.jump (l := ⟨0⟩) rfl rfl)
  exact .step (.step (.step (.step (.step (.step around (.next rfl rfl)) (.next rfl rfl)) (.next rfl rfl))
    (.jump (l := ⟨1⟩) rfl rfl)) (.next rfl rfl)) (.next rfl rfl)

/-- The path makes two objects, the first at step 1 and the second at step 7. The call is made on the second one, and the
    first one stays as it is, in a slot that is unusable in the frame. -/
theorem allocation_sites_kept_apart_remaking : ∃ (d : Dataflow) (u f u' f' : Frame),
    remaking.placement = .ok remakingLabels ∧ (∀ site, VType.uninitialized site ∉ [VType.integer] ++ []) ∧
      analyze remakingHead remaking.instrs remakingLabels { locals := [.integer] } = .ok d ∧
      d.frameAt 1 = some { locals := [.integer, .top] } ∧ .uninitialized 1 ∉ [VType.integer, .top] ++ [] ∧
      d.isLive 1 = true ∧ Path remaking.instrs remakingLabels remakingPath 8 ∧
      Frame.along remakingHead (unrolled remaking.instrs remakingPath) { locals := [.integer] } (List.range 12) = .ok u ∧
      u = { locals := [.integer, .uninitialized 1], stack := [.uninitialized 7, .uninitialized 7] } ∧
      d.frameAt 8 = some f ∧ f = { locals := [.integer, .top], stack := [.uninitialized 1, .uninitialized 1] } ∧
      (∀ v, u.Facing f v (.uninitialized 1) → v = .uninitialized 7) ∧
      u.apply remakingHead (unrolled remaking.instrs remakingPath) 12 remakingCall = .ok u' ∧
      u' = { locals := [.integer, .uninitialized 1], stack := [.object "demo/Node"] } ∧
      f.apply remakingHead remaking.instrs 8 remakingCall = .ok f' ∧
      ∀ step name, ¬u'.Facing f' (.uninitialized step) (.object name) := by
  have hentry : ∀ site, VType.uninitialized site ∉ [VType.integer] ++ [] := by simp
  have hframes : (analyze remakingHead remaking.instrs remakingLabels { locals := [.integer] }).toOption.map
      (fun d => (d.frameAt 1, d.frameAt 8)) = some (some { locals := [.integer, .top] },
        some { locals := [.integer, .top], stack := [.uninitialized 1, .uninitialized 1] }) := by
    decide +kernel
  have hpassed : Frame.along remakingHead (unrolled remaking.instrs remakingPath) { locals := [.integer] }
      (List.range 12) = .ok { locals := [.integer, .uninitialized 1], stack := [.uninitialized 7, .uninitialized 7] } := by
    decide +kernel
  have hmarked : Frame.apply remakingHead (unrolled remaking.instrs remakingPath) 12
      { locals := [.integer, .uninitialized 1], stack := [.uninitialized 7, .uninitialized 7] } remakingCall =
        .ok { locals := [.integer, .uninitialized 1], stack := [.object "demo/Node"] } := by
    decide +kernel
  obtain ⟨d, hd, hframes⟩ := Option.map_eq_some_iff.mp hframes
  obtain ⟨hnew, hcall⟩ := Prod.mk.inj hframes
  have hd := toOption_eq_some.mp hd
  obtain ⟨habsent, hsites, hpaths⟩ := allocation_sites_kept_apart (c := remaking) rfl hentry hd
  obtain ⟨u, f, hu, hf, -, hlast⟩ := hpaths _ 8 remaking_path
  cases hcall.symm.trans hf
  cases hpassed.symm.trans hu
  obtain ⟨before, -, u', f', -, -, -, hfacing, hu', hf', hnone⟩ :=
    hlast _ _ 1 rfl (by decide) rfl (by decide +kernel)
  have hstep : VType.uninitialized 7 = .uninitialized before.length := hfacing _ (.inr ⟨0, rfl, rfl⟩)
  rw [← hstep] at hfacing
  exact ⟨d, _, _, u', f', rfl, hentry, hd, hnew, habsent 1 _ _ rfl hnew, (hsites 8 _ 1 hcall (by simp)).1, remaking_path,
    hpassed, rfl, hcall, rfl, hfacing, hu', Except.ok.inj (hu'.symm.trans hmarked), hf', hnone⟩

end Dataflow

end Classwright
