import Robotd.Cli.Keeps
import Robotd.Host.Life

/-!
# The command line keeps the protocol

One lemma for each function of the command line, up to `keeps_parseOptions`: `parse_options`
returns 0 only in a phase from which the protocol lets a daemon start.
-/

namespace Robotd

open Lib Lib.CLib Cli
open Lib.Program (Protocol Conforms)

variable {option : String}

/-- A message, where it is allowed. -/
theorem keeps_print {stream : Stream} {format : String} {args : List String} {φ : Life}
    {g : Globals} {post : Life → Unit → Globals → Prop}
    (hallows : φ.allows option (.print stream format args)) (h : post φ () g) :
    Keeps (life option) (Sys.make (.print stream format args) : Cli Unit) g φ post := by
  refine (keeps_make _).mpr ⟨hallows, fun r _ => ?_⟩
  have hsame : (life option).after φ ⟨.print stream format args, r⟩ = φ := after_talks rfl φ r
  rw [hsame]
  exact h

/-- The phases in which a configuration is recorded. Only a read of `CONFIG_LOAD` leads from one
to another. -/
def Life.Steady : Life → Prop
  | vacant | wordless | addressed _ => True
  | _ => False

theorem steady_allows {φ : Life} {c : Call} (hφ : φ.Steady) (hc : c.Records) :
    φ.allows option c := by
  cases φ with
  | vacant | wordless | addressed => exact .inl hc
  | _ => exact absurd hφ id

theorem steady_after {φ : Life} {c : Call} (hφ : φ.Steady) (hc : c.Records)
    (hread : ∀ h, c ≠ .fread h) (r : Response c) : φ.after ⟨c, r⟩ = φ := by
  cases c with
  | fread h => exact absurd rfl (hread h)
  | fopen | fwrite | stat | mkdir | print | fault => cases φ with
      | vacant | wordless | addressed => rfl
      | _ => exact absurd hφ id
  | _ => exact absurd hc id

/-- A recording call in a steady phase, whose answer is used by what follows. -/
theorem steady_make {φ : Life} {c : Call} {g : Globals} {post : Life → Response c → Globals → Prop}
    (hφ : φ.Steady) (hc : c.Records) (hread : ∀ h, c ≠ .fread h)
    (h : ∀ r, Life.Expects ⟨c, r⟩ → post φ r g) :
    Keeps (life option) (Sys.make c : Cli (Response c)) g φ post := by
  refine (keeps_make _).mpr ⟨steady_allows hφ hc, fun r hr => ?_⟩
  have hsame : (life option).after φ ⟨c, r⟩ = φ := steady_after hφ hc hread r
  rw [hsame]
  exact h r hr

/-- Opening a file in a steady phase. -/
theorem steady_fopen {φ : Life} {path : Path} {mode : Mode} {g : Globals}
    {post : Life → Option Handle → Globals → Prop} (hφ : φ.Steady)
    (hc : (Call.fopen path mode).Records) (hok : ∀ h : Handle, h.path = path → post φ (some h) g)
    (herror : ∀ e : Errno, post φ none { g with errno := e }) :
    Keeps (life option) (fopen path mode) g φ post := by
  rw [fopen, keeps_bind]
  refine steady_make hφ hc (by simp) fun r hr => ?_
  cases r with
  | ok h => exact hok h hr.2
  | error e => exact herror e

/-- The directory is made, or `errno` is set. -/
theorem keeps_makeRunConfDir {φ : Life} {g : Globals} (hφ : φ.Steady) :
    Keeps (life option) makeRunConfDir g φ fun ψ made g' => ψ = φ ∧ (made = false → g'.errno ≠ 0) := by
  rw [makeRunConfDir, keeps_bind, stat, keeps_bind]
  refine steady_make hφ trivial (by simp) fun r _ => keeps_report r (fun _ => ?_) fun e _ => ?_
  · exact ⟨rfl, by simp⟩
  · rw [if_neg Bool.false_ne_true, mkdir, keeps_bind]
    refine steady_make hφ trivial (by simp) fun r _ => keeps_report r (fun _ => ?_) fun e _ => ?_
    · exact ⟨rfl, by simp⟩
    · exact ⟨rfl, fun _ => e.2⟩

/-- What is opened is `CONFIG_LOAD`. -/
theorem keeps_openConfigLoad {φ : Life} {g : Globals} (hφ : φ.Steady) :
    Keeps (life option) openConfigLoad g φ fun ψ f _ => ψ = φ ∧ ∀ h ∈ f, h.path = configLoad := by
  have hnone : φ = φ ∧ ∀ h ∈ (none : Option Handle), h.path = configLoad := ⟨rfl, by simp⟩
  have hsome : ∀ h : Handle, h.path = configLoad → φ = φ ∧ ∀ h' ∈ some h, h'.path = configLoad := by
    intro h hpath
    exact ⟨rfl, fun h' hmem => Option.some.inj hmem ▸ hpath⟩
  rw [openConfigLoad, keeps_bind]
  refine steady_fopen hφ rfl hsome fun e => ?_
  simp only [keeps_bind, keeps_get, keeps_ite]
  split
  · refine (keeps_makeRunConfDir hφ).mono fun ψ made g' hmade => ?_
    obtain ⟨rfl, -⟩ := hmade
    split
    · refine steady_fopen hφ rfl hsome fun e => ?_
      rw [keeps_bind]
      exact keeps_print (steady_allows hφ trivial) hnone
    · exact keeps_print (steady_allows hφ trivial) hnone
  · exact keeps_print (steady_allows hφ trivial) hnone

theorem keeps_recordConfig {φ : Life} {g : Globals} (hφ : φ.Steady) :
    Keeps (life option) recordConfig g φ fun ψ _ _ => ψ = φ := by
  rw [recordConfig, keeps_bind]
  refine (keeps_openConfigLoad hφ).mono fun ψ f g' hopened => ?_
  obtain ⟨rfl, hpath⟩ := hopened
  cases f with
  | none => rfl
  | some h =>
      simp only [keeps_bind, keeps_get]
      exact steady_make hφ (hpath h rfl) (by simp) fun _ _ => rfl

theorem keeps_optionLoad {φ : Life} {g : Globals} (cwd : Path) (hφ : φ.Steady) :
    Keeps (life option) (optionLoad cwd) g φ fun ψ _ _ => ψ = φ := by
  simp only [optionLoad, keeps_bind, keeps_get]
  refine steady_fopen hφ trivial (fun h _ => ?_) fun e => ?_
  · exact keeps_recordConfig hφ
  · simp only [keeps_bind, keeps_get, keeps_setConfigFile]
    refine steady_fopen hφ trivial (fun h _ => ?_) fun e => ?_
    · exact keeps_recordConfig hφ
    · rw [keeps_bind]
      exact keeps_print (steady_allows hφ trivial) rfl

/-- Without a daemon, every way out may lead to a new one. -/
theorem keeps_noDaemonProcess {g : Globals} (cwd : Path) (argv : List String) :
    Keeps (life option) (noDaemonProcess cwd argv) g .vacant fun ψ _ _ => ψ = .vacant := by
  have hφ : Life.vacant.Steady := trivial
  simp only [noDaemonProcess, keeps_ite]
  split
  · exact rfl
  split
  · rw [keeps_bind]
    exact keeps_print (steady_allows hφ trivial) rfl
  split
  · split
    · exact keeps_optionLoad cwd hφ
    split
    · exact keeps_optionLoad cwd hφ
    · rw [keeps_bind]
      exact keeps_print (steady_allows hφ trivial) rfl
  · rw [keeps_bind]
    refine keeps_print (steady_allows hφ trivial) ?_
    rw [keeps_bind]
    exact keeps_print (steady_allows hφ trivial) rfl

/-- What `parse_options` may return: 0 only where a daemon may be started. -/
def Life.Decided (ψ : Life) (ret : Int) : Prop := ψ.Outside ∧ (ret = 0 → ψ.Opens)

theorem decided_nonzero {ψ : Life} {ret : Int} (h : ψ.Outside) (hret : ret ≠ 0) :
    ψ.Decided ret :=
  ⟨h, fun hzero => absurd hzero hret⟩

theorem decided_opens {ψ : Life} {ret : Int} (h : ψ.Opens) : ψ.Decided ret :=
  ⟨h.outside, fun _ => h⟩

theorem errno_ne_zero (e : Errno) : ((e : Nat) : Int) ≠ 0 := mt Int.natCast_eq_zero.mp e.2

/-- The block on `CONFIG_LOAD` returns 0 only after a read without a word. -/
theorem keeps_restoreConfig {g : Globals} (pid : Nat) :
    Keeps (life option) restoreConfig g (.addressed pid) fun ψ r _ =>
      (r = none → ψ = .addressed pid) ∧ ∀ ret, r = some ret → ψ.Decided ret := by
  have hφ : (Life.addressed pid).Steady := trivial
  -- the ways out that report an error number
  have hreturns : ∀ {g' : Globals} {text : String} {args : List String}, g'.errno ≠ 0 →
      Keeps (life option) (do
          eprintf text args
          return some (← errno) : Cli (Option Int)) g' (.addressed pid) fun ψ r _ =>
        (r = none → ψ = .addressed pid) ∧ ∀ ret, r = some ret → ψ.Decided ret := by
    intro g' text args herrno
    rw [keeps_bind]
    refine keeps_print (steady_allows hφ trivial) ⟨by simp, fun ret hret => ?_⟩
    cases hret
    exact decided_nonzero trivial (mt Int.natCast_eq_zero.mp herrno)
  rw [restoreConfig, keeps_bind]
  refine steady_fopen hφ trivial (fun h _ => ?_) fun e => ?_
  · rw [keeps_bind, fread]
    refine (keeps_make _).mpr ⟨.inl trivial, fun text _ => ?_⟩
    have hafter : (life option).after (.addressed pid) ⟨.fread h, text⟩ =
      if scanWord text = [] then .wordless else .addressed pid := rfl
    rw [hafter]
    simp only [keeps_ite, keeps_bind, keeps_get, keeps_setConfigFile, List.isEmpty_iff]
    by_cases hword : scanWord text = []
    · have hφ : Life.wordless.Steady := trivial
      rw [if_pos hword, if_pos hword, if_neg (by rw [hword]; decide)]
      refine steady_fopen hφ rfl (fun h hpath => ?_) fun e => keeps_fault (.inl trivial)
      simp only [keeps_bind]
      refine steady_make hφ hpath (by simp) fun _ _ => keeps_print (.inl trivial) ?_
      exact ⟨by simp, fun _ _ => decided_opens trivial⟩
    · rw [if_neg hword, if_neg hword]
      split
      · exact keeps_fault (.inl trivial)
      · exact ⟨fun _ => rfl, by simp⟩
  · simp only [keeps_bind, keeps_get, keeps_ite]
    split
    · refine (keeps_makeRunConfDir hφ).mono fun ψ made g' hmade => ?_
      obtain ⟨rfl, herrno⟩ := hmade
      cases made with
      | false => exact hreturns (herrno rfl)
      | true =>
          rw [if_pos rfl]
          refine steady_fopen hφ rfl (fun h hpath => ?_) fun e => hreturns e.2
          rw [keeps_bind]
          exact steady_make hφ hpath (by simp) fun _ _ => ⟨fun _ => rfl, by simp⟩
    · exact hreturns e.2

theorem keeps_kill {g : Globals} {pid : Nat} {signal : Signal} {post : Life → Bool → Globals → Prop}
    (hsignal : signalOf option = some signal)
    (hok : post (Life.after (.addressed pid) ⟨.kill pid signal, .ok ()⟩) true g)
    (herror : ∀ e : Errno, post (.addressed pid) false { g with errno := e }) :
    Keeps (life option) (kill pid signal) g (.addressed pid) post := by
  rw [kill, keeps_bind]
  refine (keeps_make _).mpr ⟨.inr ⟨signal, rfl, hsignal⟩, fun r _ => ?_⟩
  refine keeps_report r (fun hr => ?_) fun e hr => ?_
  · rw [hr]
    exact hok
  · have hafter : (life option).after (.addressed pid) ⟨.kill pid signal, r⟩ = .addressed pid := by
      rw [hr]
      cases signal <;> rfl
    rw [hafter]
    exact herror e

/-- A signal that is sent as the option says. -/
theorem keeps_signalDaemon {g : Globals} {pid : Nat} {signal : Signal} {ret : Int} {format : String}
    {args : List String} (hsignal : signalOf option = some signal)
    (hret : ret = 0 → signal = .sigterm) :
    Keeps (life option) (signalDaemon pid signal ret format args) g (.addressed pid) fun ψ ret _ =>
      ψ.Decided ret := by
  rw [signalDaemon, keeps_bind]
  refine keeps_kill hsignal ?_ fun e => ?_
  · by_cases hzero : ret = 0
    · rw [hret hzero]
      exact decided_opens trivial
    · cases signal <;> exact decided_nonzero trivial hzero
  · rw [if_neg Bool.false_ne_true, keeps_bind]
    exact keeps_print (.inl trivial) (decided_nonzero trivial (errno_ne_zero e))

/-- With a daemon alive, 0 is returned only after a read of `CONFIG_LOAD` without a word or after
the daemon has been told to stop. -/
theorem keeps_daemonProcess {g : Globals} (cwd : Path) (argv : List String) (pid : Nat) :
    Keeps (life (argument argv 1)) (daemonProcess cwd argv pid) g (.addressed pid) fun ψ ret _ =>
      ψ.Decided ret := by
  have hprints : ∀ {stream : Stream} {format : String} {args : List String} {g : Globals} {ret : Int},
      ret ≠ 0 → Keeps (life (argument argv 1)) (do
        (Sys.make (.print stream format args) : Cli Unit)
        return ret : Cli Int) g (.addressed pid) fun ψ ret _ =>
      ψ.Decided ret := by
    intro stream format args g ret hret
    rw [keeps_bind]
    exact keeps_print (.inl trivial) (decided_nonzero trivial hret)
  have hwrong : wrongOptions ≠ 0 := by decide
  have hnothing : dontDoAnything ≠ 0 := by decide
  simp only [daemonProcess, keeps_ite]
  split
  · exact hprints hnothing
  rw [keeps_bind]
  refine (keeps_restoreConfig pid).mono fun ψ r g' hrestored => ?_
  cases r with
  | some ret => exact hrestored.2 ret rfl
  | none =>
      rw [hrestored.1 rfl]
      simp only [keeps_ite, keeps_bind, keeps_setConfigFile, keeps_get]
      split
      · rename_i hload
        have hφ : (Life.addressed pid).Steady := trivial
        split
        · refine (keeps_optionLoad cwd hφ).mono fun ψ ret g'' hsame => ?_
          rw [hsame]
          split
          · rename_i hret
            exact decided_nonzero trivial hret
          · exact keeps_signalDaemon (by rw [hload]; decide) (by decide)
        · exact keeps_print (.inl trivial) (decided_nonzero trivial hwrong)
      split
      · rename_i hreload
        exact keeps_signalDaemon (by rw [hreload]; decide) (by decide)
      split
      · rename_i hrestart
        refine keeps_print (.inl trivial) ?_
        exact keeps_signalDaemon (by rw [hrestart]; decide) fun _ => rfl
      split
      · rename_i hstop
        have hsignal : signalOf (argument argv 1) = some .sigterm := by
          rw [hstop]
          decide
        refine keeps_kill hsignal ?_ fun e => ?_
        · have htold : (Life.addressed pid).after ⟨.kill pid .sigterm, .ok ()⟩ = .told := rfl
          rw [htold, if_pos rfl]
          exact keeps_print (.inl trivial) (decided_nonzero trivial hnothing)
        · rw [if_neg Bool.false_ne_true]
          exact keeps_print (.inl trivial) (decided_nonzero trivial (errno_ne_zero e))
      · refine keeps_print (.inl trivial) (keeps_print (.inl trivial) ?_)
        exact decided_nonzero trivial hwrong

/-- `parse_options` returns 0 only where a daemon may be started. -/
theorem keeps_parseOptions {g : Globals} (cwd : Path) (argv : List String) :
    Keeps (life (argument argv 1)) (parseOptions cwd argv) g .arriving fun ψ ret _ =>
      ψ.Decided ret := by
  have hvacant : ∀ g, Keeps (life (argument argv 1)) (noDaemonProcess cwd argv) g .vacant fun ψ ret _ =>
      ψ.Decided ret := by
    intro g
    refine (keeps_noDaemonProcess cwd argv).mono fun ψ ret g' hψ => ?_
    rw [hψ]
    exact decided_opens trivial
  simp only [parseOptions, keeps_ite]
  split
  · rw [keeps_bind]
    exact keeps_print (.inl rfl) (decided_nonzero trivial (by decide : wrongOptions ≠ 0))
  split
  · rw [keeps_bind]
    exact keeps_print (.inl rfl) (decided_nonzero trivial (by decide : helpOption ≠ 0))
  rw [keeps_bind]
  refine keeps_fopen (.inr rfl) (fun h _ => ?_) fun e _ => hvacant _
  rw [keeps_bind, fscanfU16, keeps_bind, fread]
  refine (keeps_make _).mpr ⟨rfl, fun text _ => ?_⟩
  have hread : (life (argument argv 1)).after (.found h) ⟨.fread h, text⟩ = .numbered text := rfl
  have hfound : (life (argument argv 1)).after .arriving ⟨.fopen pidFile .r, .ok h⟩ = .found h := rfl
  rw [hfound, hread]
  simp only [keeps_bind, keeps_modify, keeps_pure, keeps_ite]
  split
  · rename_i hnone
    exact keeps_print (.inl rfl) (decided_opens hnone)
  · refine (keeps_make _).mpr ⟨.inr (.inl rfl), fun names _ => ?_⟩
    have hafter : (life (argument argv 1)).after (.numbered text) ⟨.readdirProc, names⟩ =
      if names.any (entryNames (scanU16 text).value) then .addressed (scanU16 text).value
      else .stale := rfl
    rw [hafter]
    split
    · exact keeps_daemonProcess cwd argv _
    · rw [unlink, keeps_bind]
      refine (keeps_make _).mpr ⟨.inr rfl, fun r _ => keeps_report r (fun hr => ?_) fun e hr => ?_⟩
      · rw [hr]
        exact hvacant _
      · have hstale : (life (argument argv 1)).after .stale ⟨.unlink pidFile, r⟩ = .stale := by
          rw [hr]
          rfl
        rw [hstale, if_neg Bool.false_ne_true]
        exact keeps_print (.inl rfl) (decided_nonzero trivial (errno_ne_zero e))

end Robotd
