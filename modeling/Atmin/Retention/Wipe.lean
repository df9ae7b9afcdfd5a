import Atmin.Interaction.Rounds
import Atmin.Retention.Resume

/-!
# The wipe of an account

`delete_user` lists a prefix from its start until a page comes up short. Each full page that is
deleted leaves a thousand keys fewer, so every loop ends; and it ends well only once nothing is
left.
-/

namespace Atmin

open Interaction
open Sweep

/-- One round over a prefix: whether to list it again. -/
def wipeRound (pre : String) : Sweep Bool := do
  let page ← store (ask (.listObjects pre WIPE_PAGE_SIZE none))
  if page.keys = [] then pure false
  else
    store (ask (.deleteObjects page.keys))
    pure (decide (WIPE_PAGE_SIZE ≤ page.keys.length))

/-- The loop over a prefix, with any continuation in the place where `pages` pages are used up. -/
def wipePrefixOr (beyond : Sweep Unit) (pages : Nat) (pre : String) : Sweep Unit :=
  ExceptT.mk (Prog.rounds beyond.run (wipeRound pre).run pages)

def wipeAllOr (beyond : Sweep Unit) (pages : Nat) : List String → Sweep Unit
  | [] => pure ()
  | pre :: rest => do
    wipePrefixOr beyond pages pre
    wipeAllOr beyond pages rest

def deleteUserOr (beyond : Sweep Unit) (pages : Nat) (profile : Profile) : Sweep Unit := do
  wipeAllOr beyond pages (ownedPrefixes profile.userId)
  if profile.handle = "" then pure () else store (ask (.deleteObject (keyHandle profile.handle)))

/-- Pages that are enough for any prefix. -/
def wipeRounds {ι : Type} (s : Sys ι) : Nat := s.objects.entries.length / WIPE_PAGE_SIZE + 1

/-- Where its pages are used up, the wipe of the model stops with an error. -/
abbrev tooManyPages : Sweep Unit := throw (.backend "too many pages")

theorem wipePrefix_eq (pre : String) (pages : Nat) :
    wipePrefix pre pages = wipePrefixOr tooManyPages pages pre := by
  induction pages with
  | zero => rfl
  | succ pages ih =>
    show ExceptT.mk (Prog.bind _ (ExceptT.bindCont _)) = ExceptT.mk (Prog.bind (Prog.bind _ _) _)
    rw [Prog.bind_assoc]
    congr 2
    funext listed
    cases listed with
    | error e => rfl
    | ok page =>
      by_cases empty : page.keys = []
      · simp only [ExceptT.bindCont, if_pos empty]
        rfl
      simp only [ExceptT.bindCont, if_neg empty]
      show Prog.bind _ (ExceptT.bindCont _) = Prog.bind (Prog.bind _ _) _
      rw [Prog.bind_assoc]
      congr 1
      funext deleted
      cases deleted with
      | error e => rfl
      | ok _ =>
        by_cases short : page.keys.length < WIPE_PAGE_SIZE
        · have last : decide (WIPE_PAGE_SIZE ≤ page.keys.length) = false :=
            decide_eq_false (Nat.not_le.mpr short)
          simp only [ExceptT.bindCont, if_pos short, last]
          rfl
        · have full : decide (WIPE_PAGE_SIZE ≤ page.keys.length) = true :=
            decide_eq_true (Nat.not_lt.mp short)
          simp only [ExceptT.bindCont, if_neg short, full]
          exact congrArg ExceptT.run ih

theorem wipeAll_eq (pages : Nat) (prefixes : List String) :
    wipeAll pages prefixes = wipeAllOr tooManyPages pages prefixes := by
  induction prefixes with
  | nil => rfl
  | cons pre rest ih =>
    unfold wipeAll wipeAllOr
    rw [wipePrefix_eq, ih]

theorem deleteUser_eq (pages : Nat) (p : Profile) :
    deleteUser pages p = deleteUserOr tooManyPages pages p := by
  unfold deleteUser deleteUserOr
  rw [wipeAll_eq]

section Wipe

variable {ι : Type} {i : ι} {s t : Sys ι} {exec : (o : Op) → Sys ι → Res o → Sys ι → Prop}
  {fails : Prop} {beyond beyond' : Sweep Unit} {pages pages' : Nat}

/-! ### Every loop ends -/

/-- A round that goes on has deleted a full page. -/
theorem wipeRound_uses (reads : Reads exec fails) (deletes : Deletes exec) (pre : String) :
    UsesUp exec (wipeRound pre).run fun s => (keysUnder s pre).length / WIPE_PAGE_SIZE := by
  intro s
  refine Sweep.andThen (Answers.list reads pre WIPE_PAGE_SIZE none)
    (fun _ _ _ wrong => nomatch wrong) ?_
  rintro page s ⟨rfl, found | ⟨_, _, wrong⟩⟩
  case inr => cases wrong
  cases found
  have listed : (s.listing pre WIPE_PAGE_SIZE none).keys = (keysUnder s pre).take 1000 :=
    ObjectMap.page_take _ _ _ _
  split
  next => exact .ret fun wrong => nomatch wrong
  next =>
    refine Sweep.andThen (P := fun r u => r = .ok () →
      u = s.remove (s.listing pre WIPE_PAGE_SIZE none).keys)
      (.op fun r u served => .ret (deletes.many served).2) (fun _ _ _ wrong => nomatch wrong) ?_
    rintro _ u removed
    refine .ret fun full => ?_
    have full : 1000 ≤ ((keysUnder s pre).take 1000).length := by
      rw [← listed]
      exact of_decide_eq_true (Except.ok.inj full)
    have left : keysUnder u pre = (keysUnder s pre).drop 1000 := by
      rw [removed rfl]
      exact ObjectMap.keysAfter_erasePage s.objects _ 1000
    rw [List.length_take] at full
    show (keysUnder u pre).length / WIPE_PAGE_SIZE < (keysUnder s pre).length / WIPE_PAGE_SIZE
    rw [left, List.length_drop, WIPE_PAGE_SIZE_eq]
    omega

/-- Keys under a prefix are keys. -/
theorem enough_pages (fewer : ∀ pre, (keysUnder t pre).length ≤ s.objects.entries.length)
    (enough : wipeRounds s ≤ pages) (pre : String) :
    (keysUnder t pre).length / WIPE_PAGE_SIZE < pages :=
  lt_of_le_of_lt (Nat.div_le_div_right (fewer pre)) enough

theorem wipeAllOr_ends (reads : Reads exec fails) (deletes : Deletes exec) (prefixes : List String)
    (fewer : ∀ pre, (keysUnder t pre).length ≤ s.objects.entries.length)
    (enough : wipeRounds s ≤ pages) (enough' : wipeRounds s ≤ pages') {r : Except StoreError Unit}
    {u : Sys ι} (run : Runs exec (wipeAllOr beyond pages prefixes).run t r u) :
    Runs exec (wipeAllOr beyond' pages' prefixes).run t r u := by
  induction prefixes generalizing t with
  | nil => exact run
  | cons pre rest ih =>
    have bounded (out : Sweep Unit) {a : Except StoreError Unit} {v : Sys ι}
        (wiped : Runs exec (wipePrefixOr beyond pages pre).run t a v) :
        Runs exec (wipePrefixOr out pages' pre).run t a v :=
      runs_rounds (wipeRound_uses reads deletes pre) (enough_pages fewer enough pre)
        (enough_pages fewer enough' pre) wiped
    obtain ⟨a, v, wiped, last⟩ := runs_bind.mp run
    refine runs_bind.mpr ⟨a, v, bounded beyond' wiped, ?_⟩
    cases a with
    | error e => exact last
    | ok _ =>
      -- The next prefix starts with no more keys than this one did.
      have shrunk : Shrunk (startsWith · pre) t v := by
        have wiped' := bounded tooManyPages wiped
        rw [← wipePrefix_eq] at wiped'
        exact (wipePrefix_shrinks reads deletes pre pages' _ _ wiped').1
      exact ih (fun q => (shrunk.fewer _ none).trans (fewer q)) last

/-- No run gets as far as the bound on its pages. -/
theorem deleteUserOr_ends (reads : Reads exec fails) (deletes : Deletes exec) (p : Profile)
    (enough : wipeRounds s ≤ pages) (enough' : wipeRounds s ≤ pages') {r : Except StoreError Unit}
    (run : Runs exec (deleteUserOr beyond pages p).run s r t) :
    Runs exec (deleteUserOr beyond' pages' p).run s r t := by
  obtain ⟨a, u, wiped, last⟩ := runs_bind.mp run
  have wiped' : Runs exec (wipeAllOr beyond' pages' (ownedPrefixes p.userId)).run s a u :=
    wipeAllOr_ends reads deletes _ (fun _ => s.objects.keysAfter_length_le _ none) enough enough' wiped
  exact runs_bind.mpr ⟨a, u, wiped', last⟩

/-! ### And ends well -/

/-- Only what goes with the profile goes; and all of it, where the wipe succeeds. -/
theorem deleteUser_clears (reads : Reads exec fails) (deletes : Deletes exec) (p : Profile)
    (pages : Nat) :
    Interaction.Ends exec (deleteUser pages p).run s fun r t => Shrunk (GoesWith p) s t ∧
      (r = .ok () → ∀ key, GoesWith p key → t.objects.get key = none) := by
  have owned {u : Sys ι} (shrunk : Shrunk (fun key => ∃ pre ∈ ownedPrefixes p.userId,
      startsWith key pre = true) s u) : Shrunk (GoesWith p) s u := shrunk.mono fun _ => .inl
  refine Sweep.andThen (wipeAll_shrinks reads deletes (ownedPrefixes p.userId) pages) ?_
    fun _ u ⟨shrunk, wiped⟩ => ?_
  · exact fun e u ⟨shrunk, _⟩ => ⟨owned shrunk, fun wrong => nomatch wrong⟩
  have clear (key : String) (within : ∃ pre ∈ ownedPrefixes p.userId, startsWith key pre = true) :
      u.objects.get key = none := by
    obtain ⟨pre, member, starts⟩ := within
    exact wiped rfl pre member key starts
  split
  next unnamed =>
    refine .ret ⟨owned shrunk, fun _ key goes => ?_⟩
    rcases goes with within | ⟨named, _⟩
    · exact clear key within
    · exact absurd unnamed named
  next named =>
    refine .op fun r v served => .ret ?_
    obtain ⟨part, all⟩ := deletes.one served
    have last : Shrunk (GoesWith p) u v := by
      rcases part with rfl | rfl
      · exact .refl _
      · exact .remove fun key member => .inr ⟨named, List.mem_singleton.mp member⟩
    refine ⟨(owned shrunk).trans last, fun ok key goes => ?_⟩
    rcases goes with within | ⟨_, rfl⟩
    · exact last.absent (clear key within)
    · rw [all ok, Sys.remove, ObjectMap.get_eraseAll, if_pos (List.mem_singleton.mpr rfl)]

/-- The wipe of an account ends, whatever is stored and whatever fails; on storage that works it
succeeds. It takes nothing else away, and where it succeeds nothing of the account is left. -/
theorem deleteUser_total (i : ι) (s : Sys ι) (p : Profile) :
    (∀ pages ≥ wipeRounds s, ∀ beyond r t, Runs (Faulty i) (deleteUserOr beyond pages p).run s r t ↔
      Runs (Faulty i) (deleteUser (wipeRounds s) p).run s r t) ∧
    (∀ pages ≥ wipeRounds s, ∀ limit, TakesPage limit → ∀ m, ∃ t,
      Runs (Alone limit m i) (deleteUser pages p).run s (.ok ()) t) ∧
    ∀ pages r t, Runs (Faulty i) (deleteUser pages p).run s r t →
      (∀ key, ¬ GoesWith p key → t.objects.get key = s.objects.get key) ∧
      (r = .ok () → ∀ key, GoesWith p key → t.objects.get key = none) := by
  refine ⟨fun pages enough beyond r t => ?_, fun pages enough limit takes m => ?_,
    fun pages r t run => ?_⟩
  · rw [deleteUser_eq]
    constructor
    · exact deleteUserOr_ends (faulty_reads i) (faulty_deletes i) p enough (le_refl _)
    · exact deleteUserOr_ends (faulty_reads i) (faulty_deletes i) p (le_refl _) enough
  · have few (pre : String) : (keysUnder s pre).length < 1000 * pages := by
      have total : (keysUnder s pre).length ≤ s.objects.entries.length :=
        s.objects.keysAfter_length_le _ none
      rw [ge_iff_le, wipeRounds, WIPE_PAGE_SIZE_eq] at enough
      omega
    obtain ⟨r, t, run⟩ := exists_runs (alone_total limit m i) (deleteUser pages p).run s
    obtain ⟨rfl, _⟩ := deleteUser_alone takes pages p (fun pre _ => few pre) r t run
    exact ⟨t, run⟩
  · obtain ⟨shrunk, cleared⟩ := deleteUser_clears (faulty_reads i) (faulty_deletes i) p pages r t run
    exact ⟨fun key other => shrunk.kept other, cleared⟩

end Wipe

end Atmin
