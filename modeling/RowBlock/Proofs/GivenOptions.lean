import Mathlib.Tactic.MkIffOfInductiveProp
import RowBlock.Options.Parse

set_option autoImplicit false

/-! # Given options

A later use of an option replaces an earlier one (`record`), so every setting of an accepted command line
is settled by the last use of its option, however that is written: abbreviated, with an attached value, or
in a cluster. The setting is what the text given there is read as (`Draft.Reflects`, `yields_settle`).
Whatever goes wrong on the way ends the program, but for counts that are blank and cannot be checked
(`yields_parse`).
-/

namespace RowBlock.Options

def Spec.key (spec : Spec) : String := spec.names.headD ""

/-! ## Last uses

A use is recorded by the name its option goes by, whichever of its names was written. An option that
was used without a text is recorded too. -/

/-- The last uses of options after one more use. -/
def record (last : String → Option (Option String)) (u : Use) (name : String) : Option (Option String) :=
  if u.spec.key = name then some u.value? else last name

/-- **The last uses** of options, by name: with a text, or without one. -/
def lastUses (us : List Use) : String → Option (Option String) := us.foldl record fun _ => none

def usedLast (args : List String) : String → Option (Option String) :=
  match classifyAll args with
  | .error _ => fun _ => none
  | .ok tokens => lastUses (read none tokens).uses

/-- **The text given to an option** by a command line: that of its last use. -/
def given (args : List String) (name : String) : Option String := (usedLast args name).join

example : given ["--matrix-a=a.csv", "-qn3", "--row", "4", "--matrix-b", "b.csv"] "--rows" = some "4" := by
  decide

/-! ## Settings and uses

The relation has a line for each setting. It says what an option holds and not how that was reached,
so it can be kept by one use after another. -/

section

variable {α : Type}

/-- What an option holds that was given a text: nothing if that is the separator, and else what it is read
as. -/
def ReadsAs (reading : String → Option α) (text : String) (x : Setting α) : Prop :=
  (text = "--" ∧ x = .blank) ∨ (text ≠ "--" ∧ ∃ a, reading text = some a ∧ x = .value a)

/-- What an option holds: the text of its last use is read, or it has never been used. -/
def HoldsLast (reading : String → Option α) (last? : Option (Option String))
    (default x : Option (Setting α)) : Prop :=
  match last? with
  | none => x = default
  | some text? => ∃ text y, text? = some text ∧ ReadsAs reading text y ∧ x = some y

end

/-- **The settings reflect the last uses** of the options. -/
@[mk_iff]
structure Draft.Reflects (d : Draft) (last : String → Option (Option String)) : Prop where
  rows : HoldsLast Text.wholeNumber? (last "--rows") (some (.value 20)) (some d.rows)
  inner : HoldsLast Text.wholeNumber? (last "--inner") (some (.value 32)) (some d.inner)
  type : HoldsLast (named? IntType.name [.int32, .int64]) (last "--dtype") (some (.value .int64))
    (some d.type)
  fill : HoldsLast (named? Fill.name [.pattern, .random]) (last "--fill") (some (.value .pattern))
    (some d.fill)
  seed : HoldsLast Text.wholeNumber? (last "--seed") none d.seed
  low : HoldsLast Text.wholeNumber? (last "--low") (some (.value (-10))) (some d.low)
  high : HoldsLast Text.wholeNumber? (last "--high") (some (.value 10)) (some d.high)
  matrixA : HoldsLast some (last "--matrix-a") none d.matrixA
  matrixB : HoldsLast some (last "--matrix-b") none d.matrixB
  kernel : HoldsLast (named? Kernel.name Kernel.all) (last "--kernel") (some (.value .rows))
    (some d.kernel)
  order : HoldsLast (named? Order.name [.rank, .arrival]) (last "--gather-order") (some (.value .rank))
    (some d.order)
  skipEmpty : d.skipEmpty = (last "--skip-empty").isSome
  rounds : HoldsLast Text.wholeNumber? (last "--rounds") (some (.value 1)) (some d.rounds)
  verify : d.verify = (last "--verify").isSome
  quiet : d.quiet = (last "--quiet").isSome
  output : HoldsLast some (last "--output") none d.output
  stats : HoldsLast some (last "--stats") none d.stats
  plot : HoldsLast some (last "--plot") none d.plot
  logLevel : HoldsLast (named? Level.name [.debug, .info, .warning, .error]) (last "--log-level")
    (some (.value .warning)) (some d.logLevel)

theorem reflects_initial : Draft.Reflects .initial fun _ => none :=
  ⟨rfl, rfl, rfl, rfl, rfl, rfl, rfl, rfl, rfl, rfl, rfl, rfl, rfl, rfl, rfl, rfl, rfl, rfl, rfl⟩

/-! ## Ends of the program

Reading a command line either stops or gives settings. `Yields` carries both sides of this through
the monad, so that each function needs one statement. -/

/-- The program ends: with the help and code zero, or with a complaint and code two. -/
def Stop.IsExit (stop : Stop) : Prop :=
  stop = .exit 0 help "" ∨ ∃ text, stop = .exit 2 "" (complaint text)

theorem Spec.isExit_refused (spec : Spec) (what : String) : (spec.refused what).IsExit := .inr ⟨_, rfl⟩

/-- **A computation yields** a result with a property, or it stops in a way that is known. -/
def Yields {α : Type} (E : Stop → Prop) (P : α → Prop) : Except Stop α → Prop
  | .ok a => P a
  | .error stop => E stop

namespace Yields

variable {α β : Type} {E F : Stop → Prop} {P Q : α → Prop} {x : Except Stop α}

theorem bind {R : β → Prop} {f : α → Except Stop β} (hx : Yields E P x)
    (hf : ∀ a, x = .ok a → P a → Yields E R (f a)) : Yields E R (x >>= f) := by
  cases x with
  | error stop => exact hx
  | ok a => exact hf a rfl hx

theorem imp (hx : Yields E P x) (hstop : ∀ stop, E stop → F stop) (hresult : ∀ a, P a → Q a) :
    Yields F Q x := by
  cases x with
  | error stop => exact hstop stop hx
  | ok a => exact hresult a hx

theorem test {H : Prop} {test : Except Stop Bool} {stop : Stop} {rest : Except Stop α}
    (htest : Yields E (fun below => below = false → H) test) (hstop : E stop)
    (hrest : H → Yields E P rest) :
    Yields E P (test >>= fun below =>
      if below = true then throw stop >>= fun _ : PUnit => rest else rest) := by
  refine htest.bind fun below _ hbelow => ?_
  cases below with
  | true => exact hstop
  | false => exact hrest (hbelow rfl)

end Yields

/-! ## Arguments name the options there are

The names are looked up in a table of all options, so whatever is found is an option of the table.
This is all that the later sections need of the classification: abbreviations and clusters change
which option is meant, but not that it is one of these. -/

theorem mem_specs_of_named {name : String} {spec : Spec} (h : (name, spec) ∈ namedSpecs) :
    spec ∈ specs := by
  obtain ⟨listed, hlisted, hname⟩ := List.mem_flatMap.mp h
  obtain ⟨_, _, heq⟩ := List.mem_map.mp hname
  cases heq
  exact hlisted

theorem mem_specs_of_specOf? {name : String} {spec : Spec} (h : specOf? name = some spec) :
    spec ∈ specs := by
  obtain ⟨before, after, hsplit, -⟩ := List.lookup_eq_some_iff.mp h
  have hmem : (name, spec) ∈ namedSpecs := by
    rw [hsplit]
    simp
  exact mem_specs_of_named hmem

theorem mem_specs_of_meanings {cs : List Char} {m : Meaning} (h : m ∈ meanings cs) :
    m.spec ∈ specs := by
  unfold meanings at h
  split at h
  · obtain ⟨⟨name, spec⟩, hmem, rfl⟩ := List.mem_map.mp h
    exact mem_specs_of_named (List.mem_filter.mp hmem).1
  · obtain ⟨⟨name, spec⟩, hmem, hm⟩ := List.mem_filterMap.mp h
    dsimp only at hm
    split at hm
    · cases hm
      exact mem_specs_of_named hmem
    · split at hm
      · cases hm
        exact mem_specs_of_named hmem
      · cases hm

/-- An argument that names an option names one of those there are. -/
def Token.IsListed : Token → Prop
  | .option spec _ _ => spec ∈ specs
  | _ => True

theorem yields_abbreviated (arg : String) : Yields Stop.IsExit Token.IsListed (abbreviated arg) := by
  unfold abbreviated
  split
  · unfold unnamed
    split <;> trivial
  · rename_i m hm
    exact mem_specs_of_meanings (hm ▸ List.mem_singleton_self m)
  · exact .inr ⟨_, rfl⟩

theorem yields_classify (arg : String) : Yields Stop.IsExit Token.IsListed (classify arg) := by
  unfold classify
  split
  · split
    · rename_i hspec
      exact mem_specs_of_specOf? hspec
    · dsimp only
      split
      · rename_i hspec
        exact mem_specs_of_specOf? hspec
      · exact yields_abbreviated arg
  · trivial

theorem yields_classifyAll (args : List String) :
    Yields Stop.IsExit (fun tokens => ∀ token ∈ tokens, token.IsListed) (classifyAll args) := by
  induction args with
  | nil => exact nofun
  | cons arg args ih =>
      unfold classifyAll
      split
      · intro token htoken
        rcases List.mem_cons.mp htoken with rfl | hplain
        · trivial
        · obtain ⟨_, _, rfl⟩ := List.mem_map.mp hplain
          trivial
      · refine (yields_classify arg).bind fun token _ htoken => ?_
        refine ih.bind fun tokens _ htokens => ?_
        exact List.forall_mem_cons.mpr ⟨htoken, htokens⟩

def AreListed (flags : List Spec) (last : Spec) : Prop := (∀ flag ∈ flags, flag ∈ specs) ∧ last ∈ specs

theorem yields_cluster {flags : List Spec} {name : String} {spec : Spec} (cs : List Char)
    (hlisted : AreListed flags spec) :
    Yields Stop.IsExit (fun r => AreListed r.1 r.2.1) (cluster flags name spec cs) := by
  induction cs generalizing flags name spec with
  | nil =>
      unfold cluster
      split
      · exact hlisted
      · exact spec.isExit_refused _
  | cons c cs ih =>
      unfold cluster
      split
      · exact hlisted
      · dsimp only
        split
        · rename_i next _ hnext
          have hmore : AreListed (flags ++ [spec]) next := by
            refine ⟨?_, mem_specs_of_specOf? hnext⟩
            intro flag hflag
            rcases List.mem_append.mp hflag with hmem | hmem
            · exact hlisted.1 flag hmem
            · exact List.mem_singleton.mp hmem ▸ hlisted.2
          split
          · exact hmore
          · exact ih hmore
        · exact spec.isExit_refused _

theorem yields_opened {spec : Spec} (hspec : spec ∈ specs) (name : String) (attached : Option String) :
    Yields Stop.IsExit (fun r => AreListed r.1 r.2.1) (opened spec name attached) := by
  have hone : AreListed [] spec := ⟨nofun, hspec⟩
  cases attached with
  | none => exact hone
  | some value => exact yields_cluster value.toList hone

/-! ## Uses among arguments

The recursion is that of the reader: without an option that waits, and with one. -/

namespace Reading

/-- What arguments come to, if they name the options there are. -/
structure IsListed (r : Reading) : Prop where
  mem_specs : ∀ u ∈ r.uses, u.spec ∈ specs
  isExit : ∀ stop ∈ r.stop?, stop.IsExit

variable {r : Reading}

theorem isListed_cut {stop : Stop} (h : stop.IsExit) : (cut stop).IsListed :=
  ⟨nofun, fun _ hstop => Option.some.inj hstop ▸ h⟩

theorem IsListed.after {flags : List Spec} {last : Use} (hr : r.IsListed)
    (hlisted : AreListed flags last.spec) : (r.after flags last).IsListed := by
  refine ⟨?_, hr.isExit⟩
  intro u hu
  rcases List.mem_append.mp hu with hflag | hrest
  · obtain ⟨flag, hmem, rfl⟩ := List.mem_map.mp hflag
    exact hlisted.1 flag hmem
  · rcases List.mem_cons.mp hrest with rfl | hmem
    · exact hlisted.2
    · exact hr.mem_specs u hmem

end Reading

/-- **The uses among arguments** are uses of the options there are. -/
theorem isListed_read {waiting : Option (List Spec × Spec)} {tokens : List Token}
    (htokens : ∀ token ∈ tokens, token.IsListed) (hwaiting : ∀ w ∈ waiting, AreListed w.1 w.2) :
    (read waiting tokens).IsListed := by
  fun_induction read waiting tokens with
  | case1 => exact ⟨nofun, nofun⟩
  | case2 spec name attached rest stop hopened =>
      have hyields := yields_opened (htokens _ List.mem_cons_self) name attached
      rw [hopened] at hyields
      exact Reading.isListed_cut hyields
  | case3 spec name attached rest flags last value hopened ih =>
      obtain ⟨hfirst, hrest⟩ := List.forall_mem_cons.mp htokens
      have hyields := yields_opened hfirst name attached
      rw [hopened] at hyields
      exact (ih hrest nofun).after hyields
  | case4 spec name attached rest flags last hopened _ ih =>
      obtain ⟨hfirst, hrest⟩ := List.forall_mem_cons.mp htokens
      have hyields := yields_opened hfirst name attached
      rw [hopened] at hyields
      refine ih hrest ?_
      rintro _ ⟨⟩
      exact hyields
  | case5 spec name attached rest flags last hopened _ ih =>
      obtain ⟨hfirst, hrest⟩ := List.forall_mem_cons.mp htokens
      have hyields := yields_opened hfirst name attached
      rw [hopened] at hyields
      exact (ih hrest nofun).after hyields
  | case6 token rest _ ih =>
      have hread := ih (List.forall_mem_cons.mp htokens).2 nofun
      exact ⟨hread.mem_specs, hread.isExit⟩
  | case7 flags last value rest ih =>
      exact (ih (List.forall_mem_cons.mp htokens).2 nofun).after (hwaiting (flags, last) rfl)
  | case8 => exact Reading.isListed_cut (Spec.isExit_refused _ _)

/-! ## The effect of uses

A use changes the setting of its own option. That the others stay as they are is checked for the
whole table at once, one option after the other. -/

variable {α : Type} {names : List String} {text? : Option String} {d : Draft}
  {last : String → Option (Option String)}

/-- **The use of an option with a value** sets what its text is read as. -/
theorem yields_reader {reading : String → Option α} {complaint : String → String}
    {set : Setting α → Draft → Draft} :
    Yields Stop.IsExit
      (fun d' => ∃ x, (∀ default, HoldsLast reading (some text?) default (some x)) ∧ d' = set x d)
      (Use.apply ⟨⟨names, reader reading complaint set⟩, text?⟩ d) := by
  cases text? with
  | none => exact Spec.isExit_refused _ _
  | some text =>
      simp only [Use.apply, Spec.assign, reader]
      by_cases hblank : text = "--"
      · rw [if_pos hblank]
        exact ⟨.blank, fun _ => ⟨text, .blank, rfl, .inl ⟨hblank, rfl⟩, rfl⟩, rfl⟩
      · rw [if_neg hblank]
        cases hread : reading text with
        | none => exact Spec.isExit_refused _ _
        | some a =>
            exact ⟨.value a, fun _ => ⟨text, .value a, rfl, .inr ⟨hblank, a, hread, rfl⟩, rfl⟩, rfl⟩

theorem apply_flag (set : Draft → Draft) : Use.apply ⟨⟨names, .flag set⟩, text?⟩ d = .ok (set d) := by
  cases text? <;> rfl

theorem apply_help : Use.apply ⟨⟨names, .help⟩, text?⟩ d = .error .helped := by
  cases text? <;> rfl

/-- **One more use** settles the setting of its option and leaves the others as they are. -/
theorem yields_apply {u : Use} (hspec : u.spec ∈ specs) (hd : d.Reflects last) :
    Yields Stop.IsExit (·.Reflects (record last u)) (u.apply d) := by
  rcases u with ⟨spec, text?⟩
  rw [Draft.reflects_iff] at hd
  simp only [specs, List.mem_cons, List.not_mem_nil, or_false] at hspec
  rcases hspec with rfl | rfl | rfl | rfl | rfl | rfl | rfl | rfl | rfl | rfl | rfl | rfl | rfl | rfl | rfl |
    rfl | rfl | rfl | rfl | rfl
  · rw [apply_help]
    exact .inl rfl
  -- the options with values
  any_goals
    refine Yields.imp yields_reader (fun _ hstop => hstop) ?_
    rintro _ ⟨x, hx, rfl⟩
    simp [Draft.reflects_iff, record, Spec.key, hd, hx]
  -- the flags
  all_goals
    rw [apply_flag]
    simp [Yields, Draft.reflects_iff, record, Spec.key, hd]

/-- **Uses one after the other** leave settings that reflect the last ones. -/
theorem yields_applyAll {us : List Use} (hspecs : ∀ u ∈ us, u.spec ∈ specs) (hd : d.Reflects last) :
    Yields Stop.IsExit (·.Reflects (us.foldl record last)) (applyAll d us) := by
  induction us generalizing d last with
  | nil => exact hd
  | cons u us ih =>
      obtain ⟨hu, hus⟩ := List.forall_mem_cons.mp hspecs
      exact (yields_apply hu hd).bind fun _ _ hnext => ih hus hnext

/-- **The settings that arguments settle** reflect the last uses among them. -/
theorem yields_settle {tokens : List Token} (htokens : ∀ token ∈ tokens, token.IsListed) :
    Yields Stop.IsExit (·.1.Reflects (lastUses (read none tokens).uses)) (settle .initial tokens) := by
  have hread : (read none tokens).IsListed := isListed_read htokens nofun
  refine (yields_applyAll hread.mem_specs reflects_initial).bind fun d _ hd => ?_
  cases hstop : (read none tokens).stop? with
  | none => exact hd
  | some stop => exact hread.isExit stop hstop

/-! ## The settings as a whole

The check lets a draft pass unchanged but for its counts, which are no longer settings that may be
blank. -/

/-- A count that is not below its least value. -/
def IsCounted (least : Int) (x : Setting Int) : Prop := x ≠ .blank ∧ least ≤ count x

/-- **A draft passes the check**: its counts are not below their least values, and it has files for both
operands or for none. -/
structure Draft.Passes (d : Draft) (s : Settings Int) : Prop where
  eq : s = { d with rows := count d.rows, inner := count d.inner, rounds := count d.rounds }
  rows : IsCounted 0 d.rows
  inner : IsCounted 0 d.inner
  rounds : IsCounted 1 d.rounds
  matrices : d.matrixA.isNone = d.matrixB.isNone

def Draft.IsUncounted (d : Draft) : Prop := d.rows = .blank ∨ d.inner = .blank ∨ d.rounds = .blank

theorem yields_isBelow (least : Int) (x : Setting Int) :
    Yields (fun _ => x = .blank) (fun below => below = false → IsCounted least x) (isBelow least x) := by
  cases x with
  | blank => exact rfl
  | value n =>
      intro hbelow
      have hnot : ¬n < least := of_decide_eq_false hbelow
      exact ⟨nofun, Int.not_lt.mp hnot⟩

/-- **The check** ends the program, or the settings pass it, unless a count is blank. -/
theorem yields_check (d : Draft) :
    Yields (fun stop => stop.IsExit ∨ d.IsUncounted) d.Passes (check d) := by
  have hexit (text : String) : (Stop.refused text).IsExit ∨ d.IsUncounted := .inl (.inr ⟨_, rfl⟩)
  unfold check
  dsimp only
  split
  · exact hexit _
  · rename_i hmatrices
    refine ((yields_isBelow 0 d.rows).imp (fun _ => .inr ∘ .inl) fun _ => id).test (hexit _) ?_
    intro hrows
    refine ((yields_isBelow 0 d.inner).imp (fun _ => .inr ∘ .inr ∘ .inl) fun _ => id).test (hexit _) ?_
    intro hinner
    refine ((yields_isBelow 1 d.rounds).imp (fun _ => .inr ∘ .inr ∘ .inr) fun _ => id).test (hexit _) ?_
    intro hrounds
    exact ⟨rfl, hrows, hinner, hrounds, by simpa using hmatrices⟩

/-! ## Command lines

What the parts of the reader yield is put together here. The theorems after it turn the relation
around: from the settings of an accepted command line to what was given on it. -/

variable {args : List String} {s : Settings Int}

/-- **A command line** ends the program, or all its arguments belong to options and the settings that
reflect the last uses of these are checked. -/
theorem yields_parse (args : List String) :
    Yields (fun stop => stop.IsExit ∨ ∃ d : Draft, d.Reflects (usedLast args) ∧ d.IsUncounted)
      (fun s => ∃ d : Draft, d.Reflects (usedLast args) ∧ d.Passes s) (parse args) := by
  unfold parse
  refine ((yields_classifyAll args).imp (fun _ => .inl) fun _ h => h).bind ?_
  intro tokens hargs htokens
  refine ((yields_settle htokens).imp (fun _ => .inl) fun _ h => h).bind ?_
  rintro ⟨d, extras⟩ - hd
  have hreflects : d.Reflects (usedLast args) := by
    rw [usedLast, hargs]
    exact hd
  dsimp only
  split
  · exact .inl (.inr ⟨_, rfl⟩)
  · exact (yields_check d).imp (fun _ h => h.imp_right fun hblank => ⟨d, hreflects, hblank⟩)
      fun _ hpasses => ⟨d, hreflects, hpasses⟩

/-- **The settings of a command line that is accepted** reflect the last uses of the options, and have
passed the check. -/
theorem exists_draft_of_parse (h : parse args = .ok s) :
    ∃ d : Draft, d.Reflects (usedLast args) ∧ d.Passes s := by
  have hyields := yields_parse args
  rw [h] at hyields
  exact hyields

/-- **The counts of a command line** that is accepted: the extents are not negative, and there is a
round at least. -/
theorem bounds_of_parse (h : parse args = .ok s) : 0 ≤ s.rows ∧ 0 ≤ s.inner ∧ 1 ≤ s.rounds := by
  obtain ⟨d, -, hpasses⟩ := exists_draft_of_parse h
  obtain rfl := hpasses.eq
  exact ⟨hpasses.rows.2, hpasses.inner.2, hpasses.rounds.2⟩

/-- What was given to an option is what its setting is read as. -/
theorem HoldsLast.of_given {reading : String → Option α} {default x : Option (Setting α)} {name text : String}
    (h : HoldsLast reading (usedLast args name) default x) (hgiven : given args name = some text) :
    ∃ y, ReadsAs reading text y ∧ x = some y := by
  rw [given] at hgiven
  cases hlast : usedLast args name with
  | none =>
      rw [hlast] at hgiven
      cases hgiven
  | some text? =>
      rw [hlast] at h hgiven
      obtain ⟨other, y, hother, hreads, hx⟩ := h
      obtain rfl : text = other := Option.some.inj (hgiven.symm.trans hother)
      exact ⟨y, hreads, hx⟩

/-- **A setting is blank** exactly if the separator was given to its option. -/
theorem HoldsLast.eq_blank_iff {reading : String → Option α} {a : α} {x : Setting α} {name : String}
    (h : HoldsLast reading (usedLast args name) (some (.value a)) (some x)) :
    x = .blank ↔ given args name = some "--" := by
  rw [given]
  cases hlast : usedLast args name with
  | none =>
      rw [hlast] at h
      cases h
      exact iff_of_false nofun nofun
  | some text? =>
      rw [hlast] at h
      obtain ⟨text, y, rfl, hreads, hx⟩ := h
      cases hx
      rcases hreads with ⟨rfl, rfl⟩ | ⟨htext, b, -, rfl⟩
      · exact iff_of_true rfl rfl
      · exact iff_of_false nofun fun hgiven => htext (Option.some.inj hgiven)

/-- A setting that is one of some values is one of them, unless it is blank. -/
theorem HoldsLast.mem_of_ne_blank {name : α → String} {values : List α} {a : α} {x : Setting α}
    {last? : Option (Option String)}
    (h : HoldsLast (named? name values) last? (some (.value a)) (some x)) (ha : a ∈ values)
    (hx : x ≠ .blank) : ∃ b ∈ values, x = .value b := by
  cases last? with
  | none =>
      cases h
      exact ⟨a, ha, rfl⟩
  | some text? =>
      obtain ⟨text, y, -, hreads, hy⟩ := h
      cases hy
      rcases hreads with ⟨-, hblank⟩ | ⟨-, b, hb, rfl⟩
      · exact absurd hblank hx
      · exact ⟨b, List.mem_of_find?_eq_some hb, rfl⟩

theorem HoldsLast.mem_of_eq_value {name : α → String} {values : List α} {a b : α} {x : Setting α}
    {last? : Option (Option String)}
    (h : HoldsLast (named? name values) last? (some (.value a)) (some x)) (ha : a ∈ values)
    (hx : x = .value b) : b ∈ values := by
  subst hx
  obtain ⟨_, hmem, heq⟩ := h.mem_of_ne_blank ha nofun
  cases heq
  exact hmem

theorem type_of_parse {type : IntType} (h : parse args = .ok s) (htype : s.type = .value type) :
    type ∈ [IntType.int32, .int64] := by
  obtain ⟨d, hd, hpasses⟩ := exists_draft_of_parse h
  obtain rfl := hpasses.eq
  exact hd.type.mem_of_eq_value (by decide) htype

theorem logLevel_of_parse {level : Level} (h : parse args = .ok s)
    (hlevel : s.logLevel = .value level) : level ∈ [Level.debug, .info, .warning, .error] := by
  obtain ⟨d, hd, hpasses⟩ := exists_draft_of_parse h
  obtain rfl := hpasses.eq
  exact hd.logLevel.mem_of_eq_value (by decide) hlevel

/-! ## Given texts -/

/-- The setting of an option that takes any text. -/
def ofText (text : String) : Setting String := if text = "--" then .blank else .value text

theorem eq_ofText {text : String} {x : Setting String} (h : ReadsAs some text x) : x = ofText text := by
  rcases h with ⟨htext, rfl⟩ | ⟨htext, a, ha, rfl⟩
  · exact (if_pos htext).symm
  · rw [ofText, if_neg htext, Option.some.inj ha]

/-- **Files that are given** are in the settings. -/
theorem matrices_of_given {pathA pathB : String} (hparse : parse args = .ok s)
    (ha : given args "--matrix-a" = some pathA) (hb : given args "--matrix-b" = some pathB) :
    s.matrixA = some (ofText pathA) ∧ s.matrixB = some (ofText pathB) := by
  obtain ⟨d, hd, hpasses⟩ := exists_draft_of_parse hparse
  obtain rfl := hpasses.eq
  obtain ⟨x, hx, hmatrixA⟩ := hd.matrixA.of_given ha
  obtain ⟨y, hy, hmatrixB⟩ := hd.matrixB.of_given hb
  exact ⟨eq_ofText hx ▸ hmatrixA, eq_ofText hy ▸ hmatrixB⟩

end RowBlock.Options
