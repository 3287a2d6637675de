import HardwareInterfaces.Lib.Duty
import HardwareInterfaces.Suspend.Service

/-!
# What `dump` prints

`dump` folds its arguments into a set of sections and prints these in a fixed order, or prints its usage text alone.
`promised` is what that text says: the sections of the options given, all of them for no option or an invalid one. The
fold is order independent (`parse_spec`), but `dump` leaves the text at two places: arguments none of which is an
option select nothing, and an error of `getSuspendStats` returns before the section that comes after it.
-/

namespace HardwareInterfaces.Suspend

open CppStd Monitor

inductive DumpSection
  | wakelocks
  | wakeups
  | kernelSuspends
  | suspendControls
  deriving DecidableEq

namespace DumpSection

def all : List DumpSection := [wakelocks, wakeups, kernelSuspends, suspendControls]

def option : DumpSection → StdString
  | wakelocks => str "--wakelocks"
  | wakeups => str "--wakeups"
  | kernelSuspends => str "--kernel_suspends"
  | suspendControls => str "--suspend_controls"

theorem mem_all (sec : DumpSection) : sec ∈ all := by
  cases sec <;> decide

end DumpSection

inductive DumpOutput
  | usage
  | sections (printed : List DumpSection)
  deriving DecidableEq

namespace DumpOptions

def selects (opts : DumpOptions) : DumpSection → Bool
  | .wakelocks => opts.wakelocks
  | .wakeups => opts.wakeups
  | .kernelSuspends => opts.kernelSuspends
  | .suspendControls => opts.suspendControls

/-- The sections printed for a mask; an error of `getSuspendStats` ends the dump. -/
def printed (opts : DumpOptions) (statsOk : Bool) : List DumpSection :=
  (if opts.wakelocks then [.wakelocks] else []) ++
  (if opts.wakeups then [.wakeups] else []) ++
  (if opts.kernelSuspends && !statsOk then []
    else (if opts.kernelSuspends then [.kernelSuspends] else []) ++
      (if opts.suspendControls then [.suspendControls] else []))

end DumpOptions

/-- `dump` with the suspend service alive, `statsOk` being whether `getSuspendStats` succeeds. -/
def dump (args : List StdString) (statsOk : Bool) : DumpOutput :=
  match DumpOptions.parse args with
  | none => .usage
  | some opts => .sections (opts.printed statsOk)

/-! ### The usage text -/

def IsHelp (arg : StdString) : Prop := arg = str "-h" ∨ arg = str "--help"

def IsAll (arg : StdString) : Prop := arg = str "-a" ∨ arg = str "--all"

def Asks (arg : StdString) (sec : DumpSection) : Prop := arg = sec.option ∨ IsAll arg

def Recognised (arg : StdString) : Prop := ∃ sec ∈ DumpSection.all, Asks arg sec

instance (arg : StdString) : Decidable (IsHelp arg) := inferInstanceAs (Decidable (_ ∨ _))

instance (arg : StdString) : Decidable (IsAll arg) := inferInstanceAs (Decidable (_ ∨ _))

instance (arg : StdString) (sec : DumpSection) : Decidable (Asks arg sec) := inferInstanceAs (Decidable (_ ∨ _))

instance (arg : StdString) : Decidable (Recognised arg) :=
  inferInstanceAs (Decidable (∃ sec ∈ DumpSection.all, Asks arg sec))

/-- The section is wanted: an option asks for it, or there is no option at all. -/
def Wanted (args : List StdString) (sec : DumpSection) : Prop :=
  (∃ arg ∈ args, Asks arg sec) ∨ ∀ arg ∈ args, ¬ Recognised arg

instance (args : List StdString) (sec : DumpSection) : Decidable (Wanted args sec) :=
  inferInstanceAs (Decidable (_ ∨ _))

/-- What the usage text promises. An error of `getSuspendStats` costs the section it is for and no other. -/
def promised (args : List StdString) (statsOk : Bool) : DumpOutput :=
  if ∃ arg ∈ args, IsHelp arg then .usage
  else .sections (DumpSection.all.filter fun sec => Wanted args sec ∧ (sec = .kernelSuspends → statsOk = true))

/-! ### The fold over the arguments -/

theorem asks_option (sec sec' : DumpSection) : Asks sec.option sec' ↔ sec' = sec := by
  cases sec <;> cases sec' <;> decide

theorem selects_all (sec : DumpSection) : DumpOptions.all.selects sec = true := by
  cases sec <;> rfl

theorem eq_of_selects {opts opts' : DumpOptions} (h : ∀ sec, opts.selects sec = opts'.selects sec) : opts = opts' := by
  obtain ⟨a, b, c, d⟩ := opts
  obtain ⟨a', b', c', d'⟩ := opts'
  obtain rfl : a = a' := h .wakelocks
  obtain rfl : b = b' := h .wakeups
  obtain rfl : c = c' := h .kernelSuspends
  obtain rfl : d = d' := h .suspendControls
  rfl

theorem parseArg_spec (opts : DumpOptions) (arg : StdString) :
    (IsHelp arg ∧ opts.parseArg arg = none) ∨
      ¬ IsHelp arg ∧ ∃ opts', opts.parseArg arg = some opts' ∧
        ∀ sec, opts'.selects sec = (opts.selects sec || decide (Asks arg sec)) := by
  unfold DumpOptions.parseArg
  split_ifs with h₁ h₂ h₃ h₄ h₅ h₆
  · subst h₁
    refine Or.inr ⟨by decide, _, rfl, fun sec => ?_⟩
    rw [show str "--wakelocks" = DumpSection.option .wakelocks from rfl]
    cases sec <;> simp [asks_option, DumpOptions.selects]
  · subst h₂
    refine Or.inr ⟨by decide, _, rfl, fun sec => ?_⟩
    rw [show str "--wakeups" = DumpSection.option .wakeups from rfl]
    cases sec <;> simp [asks_option, DumpOptions.selects]
  · subst h₃
    refine Or.inr ⟨by decide, _, rfl, fun sec => ?_⟩
    rw [show str "--kernel_suspends" = DumpSection.option .kernelSuspends from rfl]
    cases sec <;> simp [asks_option, DumpOptions.selects]
  · subst h₄
    refine Or.inr ⟨by decide, _, rfl, fun sec => ?_⟩
    rw [show str "--suspend_controls" = DumpSection.option .suspendControls from rfl]
    cases sec <;> simp [asks_option, DumpOptions.selects]
  · have hasks : ∀ sec, Asks arg sec := fun sec => Or.inr h₅
    refine Or.inr ⟨?_, _, rfl, fun sec => ?_⟩
    · rcases h₅ with rfl | rfl <;> decide
    · rw [selects_all, decide_eq_true (hasks sec), Bool.or_true]
  · exact Or.inl ⟨h₆, rfl⟩
  · have hasks : ∀ sec, ¬ Asks arg sec := by
      intro sec hask
      rcases hask with h | h
      · cases sec
        · exact h₁ h
        · exact h₂ h
        · exact h₃ h
        · exact h₄ h
      · exact h₅ h
    refine Or.inr ⟨h₆, _, rfl, fun sec => ?_⟩
    rw [decide_eq_false (hasks sec), Bool.or_false]

theorem foldlM_parseArg (args : List StdString) (opts : DumpOptions) :
    ((∃ arg ∈ args, IsHelp arg) ∧ args.foldlM DumpOptions.parseArg opts = none) ∨
      (¬ ∃ arg ∈ args, IsHelp arg) ∧ ∃ opts', args.foldlM DumpOptions.parseArg opts = some opts' ∧
        ∀ sec, opts'.selects sec = (opts.selects sec || decide (∃ arg ∈ args, Asks arg sec)) := by
  induction args generalizing opts with
  | nil => exact Or.inr ⟨by simp, opts, rfl, by simp⟩
  | cons arg args ih =>
    rw [List.foldlM_cons]
    rcases parseArg_spec opts arg with ⟨hhelp, hparse⟩ | ⟨hhelp, opts₁, hparse, hselects₁⟩
    · exact Or.inl ⟨⟨arg, List.mem_cons_self, hhelp⟩, by rw [hparse]; rfl⟩
    · rw [hparse, Option.bind_eq_bind, Option.bind_some]
      rcases ih opts₁ with ⟨⟨x, hx, hxhelp⟩, hrest⟩ | ⟨hnone, opts', hrest, hselects⟩
      · exact Or.inl ⟨⟨x, List.mem_cons_of_mem _ hx, hxhelp⟩, hrest⟩
      · refine Or.inr ⟨?_, opts', hrest, fun sec => ?_⟩
        · rintro ⟨x, hx, hxhelp⟩
          rcases List.mem_cons.mp hx with rfl | hx
          · exact hhelp hxhelp
          · exact hnone ⟨x, hx, hxhelp⟩
        · rw [hselects, hselects₁, Bool.or_assoc]
          simp

theorem parse_spec (args : List StdString) :
    ((∃ arg ∈ args, IsHelp arg) ∧ DumpOptions.parse args = none) ∨
      (¬ ∃ arg ∈ args, IsHelp arg) ∧ ∃ opts, DumpOptions.parse args = some opts ∧
        ∀ sec, opts.selects sec = decide (args = [] ∨ ∃ arg ∈ args, Asks arg sec) := by
  by_cases hargs : args = []
  · subst hargs
    exact Or.inr ⟨by simp, .all, rfl, by simp [selects_all]⟩
  · rw [DumpOptions.parse, if_neg hargs]
    rcases foldlM_parseArg args {} with h | ⟨hhelp, opts, hparse, hselects⟩
    · exact Or.inl h
    · refine Or.inr ⟨hhelp, opts, hparse, fun sec => ?_⟩
      have hfalse : DumpOptions.selects {} sec = false := by cases sec <;> rfl
      rw [hselects, hfalse, Bool.false_or]
      simp [hargs]

theorem mem_recognised {arg : StdString} {sec : DumpSection} (h : Asks arg sec) : Recognised arg :=
  ⟨sec, sec.mem_all, h⟩

theorem selects_eq_wanted {args : List StdString} {opts : DumpOptions}
    (hselects : ∀ sec, opts.selects sec = decide (args = [] ∨ ∃ arg ∈ args, Asks arg sec))
    (hvalid : args = [] ∨ ∃ arg ∈ args, Recognised arg) (sec : DumpSection) :
    opts.selects sec = decide (Wanted args sec) := by
  rw [hselects, decide_eq_decide]
  constructor
  · rintro (rfl | hask)
    · exact Or.inr fun arg harg => absurd harg List.not_mem_nil
    · exact Or.inl hask
  · rintro (hask | hnone)
    · exact Or.inr hask
    · refine Or.inl (hvalid.resolve_right ?_)
      rintro ⟨arg, harg, hrec⟩
      exact hnone arg harg hrec

/-- The early return loses the last section, if both it and the one that failed were selected. -/
theorem printed_eq_filter (opts : DumpOptions) (statsOk : Bool) :
    (opts.printed statsOk =
        DumpSection.all.filter fun sec => opts.selects sec = true ∧ (sec = .kernelSuspends → statsOk = true)) ↔
      (statsOk = true ∨ ¬ (opts.kernelSuspends = true ∧ opts.suspendControls = true)) := by
  obtain ⟨wakelocks, wakeups, kernelSuspends, suspendControls⟩ := opts
  revert wakelocks wakeups kernelSuspends suspendControls statsOk
  decide

/-! ### Where `dump` follows its usage text -/

/-- The arguments ask for help; or one of them is an option, if there are any, and no error of `getSuspendStats`
comes before a section that is still to be printed. -/
def FollowsUsage (args : List StdString) (statsOk : Bool) : Prop :=
  (∃ arg ∈ args, IsHelp arg) ∨
    (args = [] ∨ ∃ arg ∈ args, Recognised arg) ∧
      (statsOk = true ∨ ¬ (Wanted args .kernelSuspends ∧ Wanted args .suspendControls))

theorem dump_help {args : List StdString} (h : ∃ arg ∈ args, IsHelp arg) (statsOk : Bool) :
    dump args statsOk = .usage := by
  rcases parse_spec args with ⟨-, hparse⟩ | ⟨hnone, -⟩
  · rw [dump, hparse]
  · exact absurd h hnone

theorem dump_invalid {args : List StdString} (hargs : args ≠ []) (hhelp : ¬ ∃ arg ∈ args, IsHelp arg)
    (hinvalid : ∀ arg ∈ args, ¬ Recognised arg) (statsOk : Bool) : dump args statsOk = .sections [] := by
  rcases parse_spec args with ⟨h, -⟩ | ⟨-, opts, hparse, hselects⟩
  · exact absurd h hhelp
  · have hfalse : ∀ sec, opts.selects sec = false := by
      intro sec
      rw [hselects, decide_eq_false_iff_not]
      rintro (h | ⟨arg, harg, hask⟩)
      · exact hargs h
      · exact hinvalid arg harg (mem_recognised hask)
    have h₁ : opts.wakelocks = false := hfalse .wakelocks
    have h₂ : opts.wakeups = false := hfalse .wakeups
    have h₃ : opts.kernelSuspends = false := hfalse .kernelSuspends
    have h₄ : opts.suspendControls = false := hfalse .suspendControls
    rw [dump, hparse]
    simp [DumpOptions.printed, h₁, h₂, h₃, h₄]

theorem dump_congr {args args' : List StdString} (h : ∀ arg, arg ∈ args ↔ arg ∈ args') (statsOk : Bool) :
    dump args statsOk = dump args' statsOk := by
  have hnil : args = [] ↔ args' = [] := by
    simp only [List.eq_nil_iff_forall_not_mem, h]
  rcases parse_spec args with ⟨hhelp, hparse⟩ | ⟨hhelp, opts, hparse, hselects⟩
  · rw [dump_help hhelp, dump_help (by simpa only [h] using hhelp)]
  · rcases parse_spec args' with ⟨hhelp', -⟩ | ⟨-, opts', hparse', hselects'⟩
    · exact absurd (by simpa only [h] using hhelp') hhelp
    · have hsame : ∀ sec, opts.selects sec = opts'.selects sec := by
        intro sec
        rw [hselects, hselects', decide_eq_decide, hnil]
        simp only [h]
      rw [dump, dump, hparse, hparse', eq_of_selects hsame]

/-- When `dump` prints what its usage text promises. Whatever the arguments, their order and number do not matter. -/
theorem dump_follows_usage (args : List StdString) (statsOk : Bool) :
    (dump args statsOk = promised args statsOk ↔ FollowsUsage args statsOk) ∧
      ∀ args', (∀ arg, arg ∈ args ↔ arg ∈ args') → dump args' statsOk = dump args statsOk := by
  refine ⟨?_, fun args' h => (dump_congr h statsOk).symm⟩
  by_cases hhelp : ∃ arg ∈ args, IsHelp arg
  · rw [dump_help hhelp, promised, if_pos hhelp]
    exact iff_of_true rfl (Or.inl hhelp)
  · rw [FollowsUsage, or_iff_right hhelp, promised, if_neg hhelp]
    by_cases hvalid : args = [] ∨ ∃ arg ∈ args, Recognised arg
    · rw [and_iff_right hvalid]
      rcases parse_spec args with ⟨h, -⟩ | ⟨-, opts, hparse, hselects⟩
      · exact absurd h hhelp
      · have hwanted := selects_eq_wanted hselects hvalid
        have hkernel : opts.kernelSuspends = decide (Wanted args .kernelSuspends) := hwanted .kernelSuspends
        have hcontrols : opts.suspendControls = decide (Wanted args .suspendControls) := hwanted .suspendControls
        have hprinted := printed_eq_filter opts statsOk
        simp only [hwanted, decide_eq_true_eq, hkernel, hcontrols] at hprinted
        rw [dump, hparse, DumpOutput.sections.injEq]
        exact hprinted
    · have hargs : args ≠ [] := fun h => hvalid (Or.inl h)
      have hinvalid : ∀ arg ∈ args, ¬ Recognised arg := fun arg harg hrec => hvalid (Or.inr ⟨arg, harg, hrec⟩)
      rw [dump_invalid hargs hhelp hinvalid]
      refine iff_of_false (fun hsame => ?_) fun h => hvalid h.1
      have hnil := (DumpOutput.sections.inj hsame).symm
      rw [List.filter_eq_nil_iff] at hnil
      have hwakelocks : Wanted args .wakelocks := Or.inr hinvalid
      exact hnil .wakelocks (DumpSection.mem_all _) (by simp [hwakelocks])

/-- An invalid option prints nothing, where the usage text says all, and an error of `getSuspendStats` suppresses the
section of the suspend controls. -/
theorem dump_breaks_usage :
    (dump [str "--bogus"] true = .sections [] ∧
      dump [str "--bogus"] true ≠ promised [str "--bogus"] true) ∧
    (dump [] false = .sections [.wakelocks, .wakeups] ∧ dump [] false ≠ promised [] false) := by
  decide

/-! ### The threads -/

def sectionOf : Block → Option DumpSection
  | .getWakeLockStats => some .wakelocks
  | .getWakeupStats => some .wakeups
  | .dumpKernelSuspends _ => some .kernelSuspends
  | .getSuspendInfo => some .suspendControls
  | _ => none

/-- What is printed from a section's block on, up to the next block of the dump. -/
def printedAt (t : Tid) (env : Env) (σ : Shared) (opts : DumpOptions) (sec : DumpSection) : List DumpSection :=
  if sec = .kernelSuspends then
    (if env.readable then [sec] else []) ++
      Code.duties sectionOf (Service.dumpKernelSuspends t env σ opts.suspendControls).code
  else [sec]

/-- The code of `dump` reads, in order, the data of the sections it prints. -/
theorem printed_eq_duties (t : Tid) (env : Env) (σ : Shared) (opts : DumpOptions) :
    opts.printed env.readable = (Code.duties sectionOf (callDump opts)).flatMap (printedAt t env σ opts) := by
  have hstats : Code.duties sectionOf (Service.getSuspendStats t env σ).code = [] := by
    unfold Service.getSuspendStats
    split <;> rfl
  have hkernel : Code.duties sectionOf (Service.dumpKernelSuspends t env σ opts.suspendControls).code =
      if opts.suspendControls && env.readable then [.suspendControls] else [] := by
    rw [Service.dumpKernelSuspends, Code.duties_append, hstats, List.nil_append]
    split <;> rfl
  obtain ⟨wakelocks, wakeups, kernelSuspends, suspendControls⟩ := opts
  unfold printedAt
  rw [hkernel]
  clear hkernel hstats
  generalize env.readable = readable
  revert wakelocks wakeups kernelSuspends suspendControls readable
  decide

end HardwareInterfaces.Suspend
