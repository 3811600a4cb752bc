import SchemaScan.Proofs.Scan.Refusals
import SchemaScan.Scan.Script

/-! # Orderly histories

A head that moves over a source stays in its place: inside the source, behind what is pending, in the line of the
place. For this a step back has to undo the step that was made last. Of a scanner it is told what has to have been
done before it, and what it has then done itself; a scanner made of others is orderly if they fit together.
-/
namespace SchemaScan

/-- A source has one line feed more behind a line feed. -/
theorem Rune.count_take_width {source : List UInt8} {pos : Nat} {r : Rune} {rest : List Rune}
    (hread : read (source.drop pos) = r :: rest) : (source.take (pos + r.width)).count 0x0A =
      (source.take pos).count 0x0A + if r.char = '\n' then 1 else 0 := by
  obtain ⟨tail, hbytes, -⟩ := read_cons hread
  have hhigh (b : UInt8) (hb : stray b ∈ [r]) : 0x80 ≤ b.toNat := by
    have hmem : stray b ∈ read (source.drop pos) := by
      rw [hread, List.mem_singleton.mp hb]
      exact List.mem_cons_self
    exact stray_high hmem
  have hcount := lineFeeds_eq_count hhigh
  rw [lineFeeds_singleton, List.flatMap_cons, List.flatMap_nil, List.append_nil] at hcount
  rw [List.take_add, hbytes, width, List.take_left, List.count_append, hcount]

namespace Head

/-- The head stands in the source, not before what is pending, and in the line of its place. -/
structure InPlace (h : Head) (source : List UInt8) : Prop where
  start : h.start ≤ h.pos
  pos : h.pos ≤ source.length
  line : h.line = 1 + (source.take h.pos).count 0x0A

/-- The character after the head, none at the end of the source. -/
def ahead (h : Head) (source : List UInt8) : Option Char := Rune.first (source.drop h.pos)

end Head

namespace History

/-- Stepping back from `h` leads back to `k`, where the last step of the history was made. Nothing has been done
since, unless that step hit the end of the source. -/
structure StepsBack (input : Input) (past : History) (h k : Head) : Prop where
  last : ∃ earlier between, past = earlier ++ (k, .next) :: between ∧
    (between = [] ∨ input.source.length ≤ k.pos ∧ ∀ e ∈ between, e.2 ≠ .next)
  start : h.start ≤ k.pos
  backup : Scanner.backup input h = some (.ok (), { h with pos := k.pos, line := k.line })

/-- Wherever the head has been it was in its place, and every step back has undone the last step. -/
structure Orderly (input : Input) (past : History) : Prop where
  places : ∀ e ∈ past, e.1.InPlace input.source
  backups : ∀ before h later, past = before ++ (h, .backup) :: later → ∃ k, StepsBack input before h k

/-- The last step hit the end of the source, and the head has not moved since. -/
structure Spent (input : Input) (past : History) (h : Head) : Prop where
  last : ∃ earlier k between, past = earlier ++ (k, .next) :: between ∧ (∀ e ∈ between, e.2 ≠ .next) ∧
    input.source.length ≤ k.pos ∧ h.pos = k.pos ∧ h.line = k.line
  width : h.width = 0

variable {input : Input} {past : History} {h k : Head} {a : Act}

theorem orderly_nil : Orderly input [] := ⟨by simp, by simp⟩

theorem Orderly.concat (hp : Orderly input past) (hh : h.InPlace input.source)
    (hback : a = .backup → ∃ k, StepsBack input past h k) : Orderly input (past ++ [(h, a)]) := by
  constructor
  case places =>
    intro e he
    rcases List.mem_append.mp he with he | he
    · exact hp.places e he
    · rw [List.mem_singleton.mp he]
      exact hh
  case backups =>
    intro before g later heq
    rcases List.eq_nil_or_concat later with rfl | ⟨later, e, rfl⟩
    · obtain ⟨rfl, hlast⟩ := List.append_inj' heq rfl
      cases hlast
      exact hback rfl
    · rw [List.concat_eq_append, ← List.cons_append, ← List.append_assoc] at heq
      exact hp.backups before g later (List.append_inj' heq rfl).1

/-- The place to which a step back leads is one where the head has been. -/
theorem StepsBack.inPlace (hs : StepsBack input past h k) (hp : Orderly input past) :
    ({ h with pos := k.pos, line := k.line } : Head).InPlace input.source := by
  obtain ⟨earlier, between, rfl, -⟩ := hs.last
  have hk := hp.places (k, .next) (by simp)
  exact ⟨hs.start, hk.pos, hk.line⟩

end History

namespace Scanner

open History

variable {input : Input} {past : History} {h : Head}

/-! ## Single acts -/

theorem backup_of_ne_one (hw : h.width ≤ h.pos) (hne : h.width ≠ 1) :
    backup input h = some (.ok (), { h with pos := h.pos - h.width }) := by
  simp [backup, bind_apply, get_apply, set_apply, minus_apply, hw, hne]

theorem backup_of_width_zero (hw : h.width = 0) : backup input h = some (.ok (), h) := by
  have hpos : h.pos - h.width = h.pos := by omega
  rw [backup_of_ne_one (by omega) (by omega), hpos]

theorem backup_of_byte {b : UInt8} (hw : h.width = 1) (hpos : 0 < h.pos) (hb : input.source[h.pos - 1]? = some b)
    (hline : 0 < h.line) : backup input h =
      some (.ok (), { h with pos := h.pos - 1, line := if b = 0x0A then h.line - 1 else h.line }) := by
  have hpos : 1 ≤ h.pos := hpos
  have hline : 1 ≤ h.line := hline
  by_cases hfeed : b = 0x0A
  · simp [backup, bind_apply, get_apply, set_apply, minus_apply, byteAt_apply, hw, hpos, hb, hfeed, hline]
  · simp [backup, bind_apply, get_apply, set_apply, minus_apply, byteAt_apply, hw, hpos, hb, hfeed]

/-- A head that has taken a rune steps back over it. -/
theorem backup_of_read {r : Rune} {rest : List Rune}
    (hread : Rune.read (input.source.drop h.pos) = r :: rest) (hline : 0 < h.line) :
    backup input { h with
      pos := h.pos + r.width
      width := r.width
      line := if r.char = '\n' then h.line + 1 else h.line } = some (.ok (), { h with width := r.width }) := by
  obtain ⟨tail, hbytes, -, hlow⟩ := Rune.read_cons hread
  by_cases hw : r.width = 1
  · obtain ⟨b, hb⟩ := List.length_eq_one_iff.mp hw
    have hbyte : input.source[h.pos]? = some b := by
      rw [← Nat.add_zero h.pos, ← List.getElem?_drop, hbytes, hb]
      rfl
    have hfeed : b = 0x0A ↔ r.char = '\n' := by
      constructor
      · rintro rfl
        exact hlow hb
      · intro hr
        rw [Rune.bytes_eq_lineFeed hr] at hb
        exact (List.cons.inj hb).1.symm
    rw [backup_of_byte (b := b) hw (by simp [hw]) (by simpa [hw] using hbyte) (by dsimp only; split <;> omega)]
    simp only [hfeed, hw]
    split <;> simp
  · have hr : r.char ≠ '\n' := fun hr => hw (by rw [Rune.width, Rune.bytes_eq_lineFeed hr]; rfl)
    rw [backup_of_ne_one (by simp) hw]
    simp [hr]

/-- A step leads from a place to a place, and a step back leads back. A step that hits the end of the source does
not move the head. -/
theorem next_of_inPlace (past : History) (hh : h.InPlace input.source) :
    ∃ k, next input h = some (.ok (h.ahead input.source), k) ∧ k.InPlace input.source ∧
      StepsBack input (past ++ [(h, .next)]) k h ∧
      (h.ahead input.source = none → Spent input (past ++ [(h, .next)]) k) := by
  have hlast : ∃ earlier between, past ++ [(h, .next)] = earlier ++ (h, .next) :: between ∧
      (between = [] ∨ input.source.length ≤ h.pos ∧ ∀ e ∈ between, e.2 ≠ .next) := ⟨past, [], rfl, .inl rfl⟩
  rcases Nat.lt_or_ge h.pos input.source.length with hlt | hend
  · cases hread : Rune.read (input.source.drop h.pos) with
    | nil =>
      have := List.drop_eq_nil_iff.mp (Rune.read_eq_nil hread)
      omega
    | cons r rest =>
      have hahead : h.ahead input.source = some r.char := by rw [Head.ahead, Rune.first, hread]; rfl
      have hline := hh.line
      have hwidth := Rune.width_le hread
      rw [List.length_drop] at hwidth
      rw [hahead]
      refine ⟨_, next_of_read hlt hread, ⟨?_, ?_, ?_⟩, ⟨hlast, hh.start, ?_⟩, by simp⟩
      · exact Nat.le_trans hh.start (Nat.le_add_right ..)
      · dsimp only
        omega
      · dsimp only
        rw [Rune.count_take_width hread, hline]
        split <;> rfl
      · exact backup_of_read hread (by omega)
  · have hahead : h.ahead input.source = none := by
      rw [Head.ahead, Rune.first, List.drop_of_length_le hend, Rune.read_nil]
      rfl
    rw [hahead]
    refine ⟨_, next_of_length_le hend, ⟨hh.start, hh.pos, hh.line⟩, ⟨hlast, hh.start, ?_⟩, fun _ =>
      ⟨⟨past, h, [], rfl, by simp, hend, rfl, rfl⟩, rfl⟩⟩
    exact backup_of_width_zero rfl

end Scanner

/-! ## Orderly scanners -/

/-- What is asked of a head and of its history. -/
abbrev Grip := Input → History → Head → Prop

namespace Grip

/-- The next character is as `q` says, none at the end of the source. -/
def before (q : Option Char → Prop) : Grip := fun input _ h => q (h.ahead input.source)

/-- If the next character is none, the source has been found to end here. -/
def seen (q : Option Char → Prop) : Grip := fun input past h =>
  q (h.ahead input.source) ∧ (h.ahead input.source = none → History.Spent input past h)

/-- The head may step back over what is as `q` says. -/
def ripe (q : Option Char → Prop) : Grip := fun input past h => ∃ k, History.StepsBack input past h k ∧
  q (k.ahead input.source) ∧ (k.ahead input.source = none → History.Spent input past h)

variable {q q' : Option Char → Prop} {input : Input} {past : History} {h : Head}

theorem ripe.imp (hripe : ripe q input past h) (hq : ∀ r, q r → q' r) : ripe q' input past h := by
  obtain ⟨k, hback, hahead, hspent⟩ := hripe
  exact ⟨k, hback, hq _ hahead, hspent⟩

/-- At the end of the source a head may step back any number of times. -/
theorem seen.ripe (hs : seen q input past h) (hq : ∀ r, q r → r = none) (hh : h.InPlace input.source) :
    Grip.ripe q input past h := by
  obtain ⟨hahead, hspent⟩ := hs
  have hnone := hq _ hahead
  have hspent := hspent hnone
  obtain ⟨earlier, k, between, hlast, hbetween, hend, hpos, hline⟩ := hspent.last
  have hk : k.ahead input.source = h.ahead input.source := by rw [Head.ahead, Head.ahead, hpos]
  refine ⟨k, ⟨⟨earlier, between, hlast, .inr ⟨hend, hbetween⟩⟩, hpos ▸ hh.start, ?_⟩, hk ▸ hahead, fun _ => hspent⟩
  rw [Scanner.backup_of_width_zero hspent.width, ← hpos, ← hline]

end Grip

namespace Scanner

open History Grip

/-- A scanner, written down. From an orderly history for which `P` holds it makes an orderly one, and `Q` holds for
what it finds out. -/
structure Orders {α : Type} (P : Grip) (m : Scanner α) (Q : α → Grip) where
  script : Script α
  run_script : script.run = m
  orderly : ∀ {input past h}, Orderly input past → h.InPlace input.source → P input past h →
    Orderly input (past ++ script.history input h)
  ends : ∀ {input past h r k}, Orderly input past → h.InPlace input.source → P input past h →
    m input h = some (r, k) → k.InPlace input.source ∧
      ∀ a, r = .ok a → Q a input (past ++ script.history input h) k

namespace Orders

variable {α β : Type} {P P' : Grip} {m : Scanner α} {f : α → Scanner β} {Q Q' : α → Grip} {R : β → Grip}

def imp (hm : Orders P m Q) (hP : ∀ {input past h}, P' input past h → P input past h)
    (hQ : ∀ {a input past h}, h.InPlace input.source → Q a input past h → Q' a input past h) : Orders P' m Q' where
  script := hm.script
  run_script := hm.run_script
  orderly hp hh h := hm.orderly hp hh (hP h)
  ends hp hh h hrun := by
    obtain ⟨hk, hQa⟩ := hm.ends hp hh (hP h) hrun
    exact ⟨hk, fun a ha => hQ hk (hQa a ha)⟩

/-- What is orderly by itself is orderly one after the other. -/
def bind (hm : Orders P m Q) (hf : ∀ a, Orders (Q a) (f a) R) : Orders P (m >>= f) R where
  script := .bind hm.script fun a => (hf a).script
  run_script := by
    rw [Script.run, hm.run_script]
    exact congrArg (m >>= ·) (funext fun a => (hf a).run_script)
  orderly := by
    intro input past h hp hh hP
    have hfirst := hm.orderly hp hh hP
    rw [Script.history, hm.run_script, ← List.append_assoc]
    split
    · rename_i a k hrun
      obtain ⟨hk, hQ⟩ := hm.ends hp hh hP hrun
      exact (hf a).orderly hfirst hk (hQ a rfl)
    · rw [List.append_nil]
      exact hfirst
  ends := by
    intro input past h r k hp hh hP hrun
    have hfirst := hm.orderly hp hh hP
    rw [bind_apply] at hrun
    rw [Script.history, hm.run_script, ← List.append_assoc]
    split at hrun
    · cases hrun
    · rename_i a g hg
      obtain ⟨hk, hQ⟩ := hm.ends hp hh hP hg
      rw [hg]
      exact (hf a).ends hfirst hk (hQ a rfl) hrun
    · rename_i e g hg
      cases hrun
      exact ⟨(hm.ends hp hh hP hg).1, fun a ha => nomatch ha⟩

/-- What does not act leaves the head where it is. -/
def still (s : Script α) (hs : s.run = m) (hnone : ∀ input h, s.history input h = [])
    (hm : ∀ {input past h r k}, P input past h → m input h = some (r, k) →
      k = h ∧ ∀ a, r = .ok a → Q a input past h) : Orders P m Q where
  script := s
  run_script := hs
  orderly hp _ _ := by rwa [hnone, List.append_nil]
  ends hp hh hP hrun := by
    obtain ⟨rfl, hQ⟩ := hm hP hrun
    rw [hnone, List.append_nil]
    exact ⟨hh, hQ⟩

def answer (a : α) : Orders (Q a) (pure a) Q := still (.pure a) rfl (fun _ _ => rfl) fun hQ hrun => by
  cases hrun
  exact ⟨rfl, fun b hb => by cases hb; exact hQ⟩

def pure (a : α) : Orders P (pure a) fun _ => P := @answer _ (fun _ => P) a

def throw (e : Stop) : Orders P (throw e) Q := still (.stop e) rfl (fun _ _ => rfl) fun _ hrun => by
  cases hrun
  exact ⟨rfl, fun b hb => nomatch hb⟩

def giveUp : Orders P giveUp Q := still .giveUp rfl (fun _ _ => rfl) fun _ hrun => nomatch hrun

def read : Orders P read fun _ => P := still .read rfl (fun _ _ => rfl) fun hP hrun => by
  cases hrun
  exact ⟨rfl, fun _ _ => hP⟩

def get : Orders P get fun _ => P := still .get rfl (fun _ _ => rfl) fun hP hrun => by
  cases hrun
  exact ⟨rfl, fun _ _ => hP⟩

def next (q : Option Char → Prop) : Orders (before q) next fun r => ripe fun r' => r' = r ∧ q r' where
  script := .act .next
  run_script := rfl
  orderly hp hh _ := hp.concat hh (fun heq => nomatch heq)
  ends {input past h r k} hp hh hq hrun := by
    obtain ⟨g, hg, hplace, hback, hspent⟩ := next_of_inPlace past hh
    rw [hg] at hrun
    cases hrun
    refine ⟨hplace, fun r hr => ?_⟩
    cases hr
    exact ⟨h, hback, ⟨rfl, hq⟩, hspent⟩

def backup (q : Option Char → Prop) : Orders (ripe q) backup fun _ => seen q where
  script := .act .backup
  run_script := rfl
  orderly hp hh hq := hp.concat hh fun _ => ⟨_, hq.choose_spec.1⟩
  ends {input past h r k} hp hh hq hrun := by
    obtain ⟨g, hback, hq, hspent⟩ := hq
    rw [hback.backup] at hrun
    cases hrun
    refine ⟨hback.inPlace hp, fun _ _ => ⟨hq, fun hnone => ?_⟩⟩
    have hspent := hspent hnone
    -- the head is where it was
    have hstay := hback.backup.symm.trans (backup_of_width_zero hspent.width)
    simp only [Option.some.injEq, Prod.mk.injEq, true_and] at hstay
    rw [hstay]
    obtain ⟨earlier, k, between, rfl, hbetween, hend⟩ := hspent.last
    refine ⟨⟨earlier, k, between ++ [(h, .backup)], by simp [Script.history], ?_, hend⟩, hspent.width⟩
    intro e he
    rcases List.mem_append.mp he with he | he
    · exact hbetween e he
    · rw [List.mem_singleton.mp he]
      exact fun heq => nomatch heq

def ignore (q : Option Char → Prop) : Orders (before q) ignore fun _ => before q where
  script := .act .ignore
  run_script := rfl
  orderly hp hh _ := hp.concat hh fun heq => nomatch heq
  ends {input past h r k} hp hh hq hrun := by
    cases hrun
    exact ⟨⟨Nat.le_refl _, hh.pos, hh.line⟩, fun _ _ => hq⟩

def emit (q : Option Char → Prop) (kind : Kind) : Orders (before q) (emit kind) fun _ => before q where
  script := .act (.emit kind)
  run_script := rfl
  orderly hp hh _ := hp.concat hh fun heq => nomatch heq
  ends {input past h r k} hp hh hq hrun := by
    obtain ⟨item, hemit⟩ | ⟨e, hemit⟩ := exists_emit input h kind
    all_goals
      have hrun := (hemit h.room).symm.trans hrun
      cases hrun
    · exact ⟨⟨Nat.le_refl _, hh.pos, hh.line⟩, fun _ _ => hq⟩
    · exact ⟨hh, fun _ _ => hq⟩

def ite {c : Prop} [Decidable c] {m m' : Scanner α} (hm : c → Orders P m Q) (hm' : ¬ c → Orders P m' Q) :
    Orders P (if c then m else m') Q where
  script := if h : c then (hm h).script else (hm' h).script
  run_script := by
    split
    · rename_i h
      exact (hm h).run_script
    · rename_i h
      exact (hm' h).run_script
  orderly := by
    intro input past h hp hh hP
    split
    · rename_i h
      exact (hm h).orderly hp hh hP
    · rename_i h
      exact (hm' h).orderly hp hh hP
  ends := by
    intro input past h r k hp hh hP hrun
    split at hrun
    · rename_i h
      rw [dif_pos h]
      exact (hm h).ends hp hh hP hrun
    · rename_i h
      rw [dif_neg h]
      exact (hm' h).ends hp hh hP hrun

end Orders

/-! ## Stances -/

/-- What is known between two scanners. -/
inductive Stance where
  | loose
  /-- The head may step back. -/
  | ripe

def Stance.grip : Stance → Grip
  | loose => before fun _ => True
  | ripe => Grip.ripe fun _ => True

/-- A scanner that leads from one stance to another. -/
class Keeps {α : Type} (s t : Stance) (m : Scanner α) where
  orders : Orders s.grip m fun _ => t.grip

abbrev Steady {α : Type} (m : Scanner α) := Keeps .loose .loose m

abbrev Settles {α : Type} (m : Scanner α) := Keeps .loose .ripe m

section Keeps

variable {α β : Type} {s t : Stance} {m m' : Scanner α} {f : α → Scanner β}

instance keeps_pure (a : α) : Keeps s s (pure a : Scanner α) := ⟨.pure a⟩

instance keeps_throw (e : Stop) : Keeps s t (throw e : Scanner α) := ⟨.throw e⟩

instance keeps_giveUp : Keeps s t (giveUp : Scanner α) := ⟨.giveUp⟩

instance keeps_read : Keeps s s (read : Scanner Input) := ⟨.read⟩

instance keeps_get : Keeps s s (get : Scanner Head) := ⟨.get⟩

instance keeps_next : Settles next :=
  ⟨(Orders.next fun _ => True).imp (fun h => h) fun _ h => h.imp fun _ _ => trivial⟩

instance keeps_backup : Keeps .ripe .loose backup :=
  ⟨(Orders.backup fun _ => True).imp (fun h => h) fun _ _ => trivial⟩

instance keeps_ignore : Steady ignore := ⟨.ignore fun _ => True⟩

instance keeps_emit (kind : Kind) : Steady (emit kind) := ⟨.emit (fun _ => True) kind⟩

/-- Where nothing is needed, whatever is known will do. -/
def Keeps.anyhow (hm : Keeps .loose t m) (P : Grip) : Orders P m fun _ => t.grip :=
  hm.orders.imp (fun _ => trivial) fun _ h => h

/-- A head that may step back need not. -/
instance (priority := low) keeps_of_loose [hm : Keeps .loose t m] : Keeps .ripe t m := ⟨hm.anyhow _⟩

instance (priority := low) keeps_of_ripe [hm : Keeps s .ripe m] : Keeps s .loose m :=
  ⟨hm.orders.imp (fun h => h) fun _ _ => trivial⟩

instance keeps_bind [hm : Keeps s .loose m] [hf : ∀ a, Keeps .loose t (f a)] : Keeps s t (m >>= f) :=
  ⟨hm.orders.bind fun a => (hf a).orders⟩

instance (priority := high) keeps_bind_ripe [hm : Keeps s .ripe m] [hf : ∀ a, Keeps .ripe t (f a)] :
    Keeps s t (m >>= f) := ⟨hm.orders.bind fun a => (hf a).orders⟩

abbrev Keeps.step [Keeps s .loose m] (hf : ∀ a, Keeps .loose t (f a)) : Keeps s t (m >>= f) := keeps_bind

abbrev Keeps.settle [Keeps s .ripe m] (hf : ∀ a, Keeps .ripe t (f a)) : Keeps s t (m >>= f) := keeps_bind_ripe

abbrev Keeps.ite {c : Prop} [Decidable c] (hm : c → Keeps s t m) (hm' : ¬ c → Keeps s t m') :
    Keeps s t (if c then m else m') := ⟨.ite (fun h => (hm h).orders) fun h => (hm' h).orders⟩

instance keeps_ite {c : Prop} [Decidable c] [Keeps s t m] [Keeps s t m'] : Keeps s t (if c then m else m') :=
  .ite (fun _ => inferInstance) fun _ => inferInstance

end Keeps

/-! ## Moves -/

instance keeps_minus (whole part : Nat) : Steady (minus whole part) := by
  unfold minus
  infer_instance

instance keeps_slice (start stop : Nat) : Steady (slice start stop) := by
  unfold slice
  infer_instance

def Orders.peek : Orders Stance.loose.grip peek fun r => seen fun r' => r' = r := by
  refine (Orders.next fun _ => True).bind fun r => (Orders.backup _).bind fun _ => ?_
  exact (Orders.answer r).imp (fun h => ⟨h.1.1, h.2⟩) fun _ h => h

instance keeps_peek : Steady peek := ⟨Orders.peek.imp (fun h => h) fun _ _ => trivial⟩

instance keeps_accept (p : Char → Bool) : Steady (accept p) := by
  unfold accept
  infer_instance

/-- Characters are taken up to one that does not satisfy `p`. -/
def Orders.passWithin (p : Char → Bool) : (rounds : Nat) →
    Orders Stance.loose.grip (passWithin p rounds) fun _ => ripe fun r => r.any p = false
  | 0 => .giveUp
  | rounds + 1 => (Orders.next fun _ => True).bind fun r => .ite
    (fun _ => (Orders.passWithin p rounds).imp (fun _ => trivial) fun _ h => h)
    fun hany => (Orders.pure ()).imp (fun h => h.imp fun r' hr => by simpa [hr.1] using hany) fun _ h => h

def Orders.pass (p : Char → Bool) : Orders Stance.loose.grip (pass p) fun _ => ripe fun r => r.any p = false :=
  Orders.read.bind fun input => .passWithin p input.rounds

def Orders.acceptRun (p : Char → Bool) :
    Orders Stance.loose.grip (acceptRun p) fun _ => seen fun r => r.any p = false :=
  (Orders.pass p).bind fun _ => .backup _

instance keeps_pass (p : Char → Bool) : Settles (pass p) :=
  ⟨(Orders.pass p).imp (fun h => h) fun _ h => h.imp fun _ _ => trivial⟩

instance keeps_acceptRun (p : Char → Bool) : Steady (acceptRun p) :=
  ⟨(Orders.acceptRun p).imp (fun h => h) fun _ _ => trivial⟩

end Scanner

end SchemaScan
