import Mathlib.Data.List.Basic

set_option autoImplicit false

/-!
# Foundation: the accesses of a computation to a buffer

A computation over one buffer reads and writes its cells by index.  It is modelled with
the list of its accesses; at the first one outside of the buffer it ends without a result,
since nothing is known from there on.  So what is said about the accesses is said about
the last one too.
-/

namespace NetworkProgram.Foundation

variable {α β γ : Type}

inductive Access
  | read (i : Int)
  | write (i : Int)
  deriving DecidableEq, Repr

namespace Access

def index : Access → Int
  | .read i => i
  | .write i => i

/-- The access is to one of the first `n` cells. -/
def Below (n : Nat) (a : Access) : Prop := 0 ≤ a.index ∧ a.index < n

instance (n : Nat) (a : Access) : Decidable (a.Below n) := inferInstanceAs (Decidable (_ ∧ _))

theorem read_below {n i : Nat} (h : i < n) : (Access.read i).Below n :=
  ⟨Int.natCast_nonneg i, Int.ofNat_lt.mpr h⟩

theorem write_below {n i : Nat} (h : i < n) : (Access.write i).Below n :=
  ⟨Int.natCast_nonneg i, Int.ofNat_lt.mpr h⟩

end Access

/-- The accesses in their order, and the result with the cells that are left; no result
where the behaviour is undefined. -/
structure Effect (α β : Type) where
  log : List Access
  result : Option (β × List α)
  deriving DecidableEq, Repr

/-- A computation over the cells of a buffer. -/
def Traced (α β : Type) : Type := List α → Effect α β

namespace Traced

def bind (m : Traced α β) (f : β → Traced α γ) : Traced α γ := fun cells =>
  match (m cells).result with
  | none => { log := (m cells).log, result := none }
  | some (b, cells') =>
      { log := (m cells).log ++ (f b cells').log, result := (f b cells').result }

instance : Monad (Traced α) where
  pure b := fun cells => { log := [], result := some (b, cells) }
  bind := bind

def read (i : Int) : Traced α α := fun cells =>
  { log := [.read i]
    result := if 0 ≤ i then (cells[i.toNat]?).map fun c => (c, cells) else none }

def write (i : Int) (c : α) : Traced α Unit := fun cells =>
  { log := [.write i]
    result := if 0 ≤ i ∧ i < cells.length then some ((), cells.set i.toNat c) else none }

/-- Behaviour that is undefined for another reason. -/
def undefined : Traced α β := fun _ => { log := [], result := none }

/-- The reads from index `i` on until a cell with `stop`. -/
def seekFrom (stop : α → Bool) (i : Nat) : List α → Effect α Nat
  | [] => { log := [.read i], result := none }
  | c :: rest =>
      if stop c then { log := [.read i], result := some (i, []) }
      else
        { log := .read i :: (seekFrom stop (i + 1) rest).log
          result := (seekFrom stop (i + 1) rest).result }

/-- The first index from `i` on with `stop`. -/
def seek (stop : α → Bool) (i : Nat) : Traced α Nat := fun cells =>
  { log := (seekFrom stop i (cells.drop i)).log
    result := (seekFrom stop i (cells.drop i)).result.map fun r => (r.1, cells) }

/-- The `n` cells from index `i` on. -/
def load (i : Nat) : Nat → Traced α (List α)
  | 0 => pure []
  | n + 1 => do
      let c ← read i
      let rest ← load (i + 1) n
      pure (c :: rest)

/-- Consecutive writes from index `i` on. -/
def store (i : Nat) : List α → Traced α Unit
  | [] => pure ()
  | c :: rest => do
      write i c
      store (i + 1) rest

/-! ## Rules -/

/-- From `cells`, all accesses are `P`, and the computation ends with `b` and `cells'`. -/
structure Ends (P : Access → Prop) (m : Traced α β) (cells : List α) (b : β)
    (cells' : List α) : Prop where
  log : ∀ a ∈ (m cells).log, P a
  result : (m cells).result = some (b, cells')

/-- Every access is to one of the first `n` cells. -/
def Inside (n : Nat) (m : Traced α β) (cells : List α) : Prop :=
  ∀ a ∈ (m cells).log, a.Below n

section Rules

variable {P : Access → Prop} {m : Traced α β} {f : β → Traced α γ} {cells cells' : List α}

theorem Ends.mono {Q : Access → Prop} {b : β} (h : Ends P m cells b cells')
    (hPQ : ∀ a, P a → Q a) : Ends Q m cells b cells' :=
  ⟨fun a ha => hPQ a (h.log a ha), h.result⟩

theorem Ends.inside {n : Nat} {b : β} (h : Ends (Access.Below n) m cells b cells') :
    m.Inside n cells := h.log

theorem ends_pure (b : β) : Ends P (pure b : Traced α β) cells b cells :=
  ⟨fun _ h => absurd h List.not_mem_nil, rfl⟩

theorem bind_of_result {b : β} (h : (m cells).result = some (b, cells')) :
    (m >>= f) cells =
      { log := (m cells).log ++ (f b cells').log, result := (f b cells').result } := by
  change bind m f cells = _
  unfold bind
  rw [h]

theorem Ends.bind {b : β} {c : γ} {cells'' : List α} (h : Ends P m cells b cells')
    (h' : Ends P (f b) cells' c cells'') : Ends P (m >>= f) cells c cells'' := by
  constructor
  · rw [bind_of_result h.result]
    exact List.forall_mem_append.mpr ⟨h.log, h'.log⟩
  · rw [bind_of_result h.result]
    exact h'.result

/-- What a first part accesses is accessed. -/
theorem mem_log_bind {a : Access} (h : a ∈ (m cells).log) : a ∈ ((m >>= f) cells).log := by
  change a ∈ (Traced.bind m f cells).log
  unfold Traced.bind
  split
  · exact h
  · exact List.mem_append_left _ h

/-- Where the first part ends and stays inside, the second one decides. -/
theorem Ends.inside_bind {n : Nat} {b : β} (h : Ends (Access.Below n) m cells b cells') :
    (m >>= f).Inside n cells ↔ (f b).Inside n cells' := by
  unfold Inside
  rw [bind_of_result h.result, List.forall_mem_append]
  exact and_iff_right h.log

/-- What is made of the result accesses nothing. -/
theorem inside_bind_pure {n : Nat} (g : β → γ) :
    (m >>= fun b => pure (g b)).Inside n cells ↔ m.Inside n cells := by
  refine ⟨fun h a ha => h a (mem_log_bind ha), fun h a ha => h a ?_⟩
  change a ∈ (Traced.bind m _ cells).log at ha
  unfold Traced.bind at ha
  split at ha
  · exact ha
  · exact (List.mem_append.mp ha).resolve_right List.not_mem_nil

/-- What a second part accesses is accessed, if the first one ends. -/
theorem Ends.mem_log {b : β} {a : Access} (h : Ends P m cells b cells')
    (ha : a ∈ (f b cells').log) : a ∈ ((m >>= f) cells).log := by
  rw [bind_of_result h.result]
  exact List.mem_append_right _ ha

/-- A computation that ends has ended in both of its parts. -/
theorem exists_of_bind_result {c : γ} {cells'' : List α}
    (h : ((m >>= f) cells).result = some (c, cells'')) :
    ∃ b cells', (m cells).result = some (b, cells') ∧ (f b cells').result = some (c, cells'') := by
  change (Traced.bind m f cells).result = _ at h
  unfold Traced.bind at h
  split at h
  · cases h
  · rename_i b cells' hm
    exact ⟨b, cells', hm, h⟩

theorem bind_congr_left {m' : Traced α β} (h : m cells = m' cells) :
    (m >>= f) cells = (m' >>= f) cells := by
  change Traced.bind m f cells = Traced.bind m' f cells
  unfold Traced.bind
  rw [h]

/-- Only what the first part ends with matters to the second. -/
theorem bind_congr {g : β → Traced α γ}
    (h : ∀ b cells', (m cells).result = some (b, cells') → f b cells' = g b cells') :
    (m >>= f) cells = (m >>= g) cells := by
  change Traced.bind m f cells = Traced.bind m g cells
  unfold Traced.bind
  split
  · rfl
  · rename_i b cells' hm
    rw [h b cells' hm]

theorem ends_read {i : Nat} {c : α} (h : cells[i]? = some c) (hP : P (.read i)) :
    Ends P (read i) cells c cells := by
  constructor
  · exact List.forall_mem_singleton.mpr hP
  · simp [read, h]

theorem ends_write {i : Nat} (c : α) (h : i < cells.length) (hP : P (.write i)) :
    Ends P (write i c) cells () (cells.set i c) := by
  constructor
  · exact List.forall_mem_singleton.mpr hP
  · simp [write, h]

theorem mem_log_write (i : Int) (c : α) : Access.write i ∈ ((write i c) cells).log :=
  List.mem_singleton_self _

theorem seekFrom_append {stop : α → Bool} {before : List α} (rest : List α) {c : α}
    (hbefore : ∀ d ∈ before, stop d = false) (hc : stop c = true) (i : Nat) :
    (seekFrom stop i (before ++ c :: rest)).result = some (i + before.length, []) ∧
      ∀ a ∈ (seekFrom stop i (before ++ c :: rest)).log,
        ∃ j, j ≤ before.length ∧ a = .read (i + j : Nat) := by
  induction before generalizing i with
  | nil =>
      rw [List.nil_append, seekFrom, if_pos hc]
      exact ⟨rfl, List.forall_mem_singleton.mpr ⟨0, Nat.le_refl 0, rfl⟩⟩
  | cons d before ih =>
      obtain ⟨hd, hbefore⟩ := List.forall_mem_cons.mp hbefore
      obtain ⟨hresult, hlog⟩ := ih hbefore (i + 1)
      rw [List.cons_append, seekFrom, if_neg (by simp [hd]), List.length_cons]
      refine ⟨by rw [hresult, Nat.add_right_comm, Nat.add_assoc], ?_⟩
      refine List.forall_mem_cons.mpr ⟨⟨0, Nat.zero_le _, rfl⟩, fun a ha => ?_⟩
      obtain ⟨j, hj, rfl⟩ := hlog a ha
      exact ⟨j + 1, Nat.succ_le_succ hj, by rw [Nat.add_right_comm, Nat.add_assoc]⟩

/-- The search stops at the first cell with `stop`. -/
theorem ends_seek (stop : α → Bool) (pre before rest : List α) {c : α}
    (hbefore : ∀ d ∈ before, stop d = false) (hc : stop c = true)
    (hP : ∀ j : Nat, j ≤ pre.length + before.length → P (.read j)) :
    Ends P (seek stop pre.length) (pre ++ before ++ c :: rest) (pre.length + before.length)
      (pre ++ before ++ c :: rest) := by
  have hdrop : (pre ++ before ++ c :: rest).drop pre.length = before ++ c :: rest := by
    rw [List.append_assoc, List.drop_left]
  obtain ⟨hresult, hlog⟩ := seekFrom_append rest hbefore hc pre.length
  constructor
  · intro a ha
    rw [seek, hdrop] at ha
    obtain ⟨j, hj, rfl⟩ := hlog a ha
    exact hP _ (Nat.add_le_add_left hj _)
  · rw [seek, hdrop, hresult]
    rfl

theorem ends_load {i n : Nat} (hfits : i + n ≤ cells.length)
    (hP : ∀ j : Nat, i ≤ j → j < i + n → P (.read j)) :
    Ends P (load i n) cells ((cells.drop i).take n) cells := by
  induction n generalizing i with
  | zero =>
      rw [List.take_zero]
      exact ends_pure _
  | succ n ih =>
      have hlt : i < cells.length := by omega
      have hrest := ih (i := i + 1) (by omega) fun j hj hj' => hP j (by omega) (by omega)
      have hread := ends_read (P := P) (List.getElem?_eq_getElem hlt) (hP i (by omega) (by omega))
      rw [List.drop_eq_getElem_cons hlt, List.take_succ_cons]
      exact hread.bind (hrest.bind (ends_pure _))

/-- The writes leave the new contents between the old ones. -/
theorem ends_store (pre contents rest : List α) {old : List α}
    (hlen : old.length = contents.length)
    (hP : ∀ j : Nat, j < pre.length + contents.length → P (.write j)) :
    Ends P (store pre.length contents) (pre ++ old ++ rest) () (pre ++ contents ++ rest) := by
  induction contents generalizing pre old with
  | nil =>
      rw [List.length_eq_zero_iff.mp hlen]
      exact ends_pure ()
  | cons c contents ih =>
      obtain ⟨d, old, rfl⟩ := List.exists_cons_of_length_eq_add_one hlen
      have hstep := ih (pre ++ [c]) (Nat.succ.inj hlen) fun j hj => by
        refine hP j ?_
        rw [List.length_append, List.length_singleton] at hj
        rw [List.length_cons]
        omega
      have hset : (pre ++ d :: old ++ rest).set pre.length c = pre ++ [c] ++ old ++ rest := by
        simp
      have hwrite : Ends P (write pre.length c) (pre ++ d :: old ++ rest) ()
          (pre ++ [c] ++ old ++ rest) := by
        rw [← hset]
        refine ends_write c ?_ (hP _ ?_)
        · simp
        · rw [List.length_cons]
          omega
      rw [List.length_append, List.length_singleton] at hstep
      have hcells : pre ++ [c] ++ contents ++ rest = pre ++ c :: contents ++ rest := by simp
      rw [hcells] at hstep
      exact hwrite.bind hstep

/-- Contents received at the start of the buffer. -/
theorem ends_store_zero {n : Nat} {contents : List α} (hfits : contents.length ≤ n)
    (hlen : cells.length = n) :
    Ends (Access.Below n) (store 0 contents) cells ()
        (contents ++ cells.drop contents.length) ∧
      (contents ++ cells.drop contents.length).length = n := by
  have hold : (cells.take contents.length).length = contents.length := by
    rw [List.length_take]
    omega
  have hstore := ends_store (P := Access.Below n) [] contents (cells.drop contents.length) hold
    fun j hj => Access.write_below (by
      rw [List.length_nil, Nat.zero_add] at hj
      exact Nat.lt_of_lt_of_le hj hfits)
  rw [List.nil_append, List.take_append_drop] at hstore
  refine ⟨hstore, ?_⟩
  rw [List.length_append, List.length_drop]
  omega

/-- Writes up to behind the end of the buffer reach the cell behind it. -/
theorem mem_log_store {i : Nat} {contents : List α} (hi : i ≤ cells.length)
    (hlong : cells.length < i + contents.length) :
    Access.write cells.length ∈ ((store i contents) cells).log := by
  induction contents generalizing i cells with
  | nil =>
      rw [List.length_nil] at hlong
      omega
  | cons c contents ih =>
      rw [List.length_cons] at hlong
      rcases Nat.eq_or_lt_of_le hi with rfl | hlt
      · exact mem_log_bind (mem_log_write _ _)
      · have hset : (cells.set i c).length = cells.length := List.length_set
        have hrest : .write (cells.set i c).length ∈ (store (i + 1) contents (cells.set i c)).log :=
          ih (by omega) (by omega)
        rw [hset] at hrest
        exact (ends_write (P := fun _ => True) c hlt trivial).mem_log hrest

end Rules

end Traced

end NetworkProgram.Foundation
