import Mathlib.Data.List.Forall2

namespace swarmotter

/-- The core domain error. Every variant keeps the message the source formats
    into it; an operating-system error is represented by its rendered text. -/
inductive CoreError where
  | MalformedMagnet (message : String)
  | MalformedTorrent (message : String)
  | InvalidInfoHash (message : String)
  | UnsupportedTorrentFeature (message : String)
  | DuplicateTorrent (message : String)
  | NotFound (message : String)
  | InvalidConfig (message : String)
  | NetworkBlocked (message : String)
  | Proxy (message : String)
  | Storage (message : String)
  | Io (message : String)
  | Elapsed
  | Bencode (message : String)
  | Parse (message : String)
  | HttpProtocol (message : String)
  | HttpStatus (message : String)
  | InvalidArgument (message : String)
  | Internal (message : String)
  deriving DecidableEq, Repr

abbrev Result (α : Type) := Except CoreError α

/-- Whether the error indicates a network containment fail-closed state. -/
def CoreError.is_network_blocked : CoreError → Bool
  | .NetworkBlocked _ => true
  | _ => false

/-- The `Display` text of an error. -/
def CoreError.to_string : CoreError → String
  | .MalformedMagnet message => s!"malformed magnet URI: {message}"
  | .MalformedTorrent message => s!"malformed torrent metadata: {message}"
  | .InvalidInfoHash message => s!"invalid info hash: {message}"
  | .UnsupportedTorrentFeature message => s!"unsupported torrent feature: {message}"
  | .DuplicateTorrent message => s!"duplicate torrent: {message}"
  | .NotFound message => s!"torrent not found: {message}"
  | .InvalidConfig message => s!"invalid configuration: {message}"
  | .NetworkBlocked message => s!"network containment failure: {message}"
  | .Proxy message => s!"SOCKS5 proxy error: {message}"
  | .Storage message => s!"storage error: {message}"
  | .Io message => s!"io error: {message}"
  | .Elapsed => "operation timed out"
  | .Bencode message => s!"bencode error: {message}"
  | .Parse message => s!"parse error: {message}"
  | .HttpProtocol message => s!"HTTP protocol error: {message}"
  | .HttpStatus message => s!"HTTP status error: {message}"
  | .InvalidArgument message => s!"invalid argument: {message}"
  | .Internal message => s!"internal error: {message}"

instance : ToString CoreError := ⟨CoreError.to_string⟩

/-- `Option::ok_or_else`. -/
def ok_or {α : Type} (value : Option α) (error : CoreError) : Result α :=
  match value with
  | some value => .ok value
  | none => .error error

variable {α β : Type}

theorem bind_eq_ok_iff {x : Result α} {f : α → Result β} {y : β} :
    (x >>= f) = .ok y ↔ ∃ a, x = .ok a ∧ f a = .ok y := by
  cases x <;> simp [Bind.bind, Except.bind]

@[simp] theorem bind_ok (a : α) (f : α → Result β) : ((Except.ok a : Result α) >>= f) = f a := rfl

@[simp] theorem bind_error (e : CoreError) (f : α → Result β) : ((Except.error e : Result α) >>= f) = .error e := rfl

@[simp] theorem pure_eq_ok (a : α) : (pure a : Result α) = .ok a := rfl

theorem pure_eq_ok_iff {a b : α} : (pure a : Result α) = .ok b ↔ a = b := by simp

@[simp] theorem ok_or_eq_ok_iff {value : Option α} {e : CoreError} {a : α} :
    ok_or value e = .ok a ↔ value = some a := by
  cases value <;> simp [ok_or]

/-- `if bad { return Err(error) }`. -/
def reject_if (bad : Prop) [Decidable bad] (error : CoreError) : Result Unit :=
  if bad then .error error else .ok ()

@[simp] theorem reject_if_eq_ok_iff {bad : Prop} [Decidable bad] {e : CoreError} {u : Unit} :
    reject_if bad e = .ok u ↔ ¬ bad := by
  unfold reject_if
  split <;> simp_all

/-- The rules for code that has returned, as one set. -/
theorem eq_ok_iff :
    (∀ {α β : Type} {x : Result α} {f : α → Result β} {y : β}, (x >>= f) = .ok y ↔ ∃ a, x = .ok a ∧ f a = .ok y) ∧
      (∀ {α : Type} {a b : α}, (pure a : Result α) = .ok b ↔ a = b) ∧
      (∀ {α : Type} {value : Option α} {e : CoreError} {a : α}, ok_or value e = .ok a ↔ value = some a) ∧
      ∀ {bad : Prop} [Decidable bad] {e : CoreError} {u : Unit}, reject_if bad e = .ok u ↔ ¬ bad :=
  ⟨bind_eq_ok_iff, pure_eq_ok_iff, ok_or_eq_ok_iff, reject_if_eq_ok_iff⟩

theorem mapM_eq_ok {f : α → Result β} {g : α → β} {xs : List α} (h : ∀ x ∈ xs, f x = .ok (g x)) :
    xs.mapM f = .ok (xs.map g) := by
  induction xs with
  | nil => rfl
  | cons x xs ih =>
    have hrest := ih fun y hy => h y (List.mem_cons_of_mem _ hy)
    rw [List.mapM_cons, h x List.mem_cons_self, hrest]
    rfl

theorem exists_ok_of_isOk {x : Result α} (h : x.isOk = true) : ∃ a, x = .ok a := by
  cases x with
  | error e => cases h
  | ok a => exact ⟨a, rfl⟩

theorem forM_eq_ok_iff {f : α → Result Unit} {xs : List α} : xs.forM f = .ok () ↔ ∀ x ∈ xs, f x = .ok () := by
  induction xs with
  | nil => simp
  | cons x xs ih =>
    have hcons : (x :: xs).forM f = f x >>= fun _ => xs.forM f := rfl
    rw [hcons, bind_eq_ok_iff, List.forall_mem_cons, ← ih]
    constructor
    · rintro ⟨⟨⟩, hx, hxs⟩
      exact ⟨hx, hxs⟩
    · rintro ⟨hx, hxs⟩
      exact ⟨(), hx, hxs⟩

theorem mapM_eq_ok_iff {f : α → Result β} {xs : List α} {ys : List β} :
    xs.mapM f = .ok ys ↔ List.Forall₂ (fun x y => f x = .ok y) xs ys := by
  induction xs generalizing ys with
  | nil => simp [eq_comm]
  | cons x xs ih =>
    rw [List.mapM_cons]
    simp only [bind_eq_ok_iff, pure_eq_ok_iff]
    constructor
    · rintro ⟨y, hy, rest, hrest, rfl⟩
      exact .cons hy (ih.mp hrest)
    · rintro (_ | ⟨hy, hrest⟩)
      exact ⟨_, hy, _, ih.mpr hrest, rfl⟩

end swarmotter
