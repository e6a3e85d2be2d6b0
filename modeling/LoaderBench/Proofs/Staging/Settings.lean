import LoaderBench.Proofs.Platform.Environment
import LoaderBench.Proofs.Text.Utf8
import LoaderBench.Staging.Command

/-!
# What a command hands over

Of the settings of a command the last one of a variable counts, and arguments change none. A command
is handed over with the environment of the process, in which its settings have replaced what they set:
under each name stands what the command sets, or what the process has where the command sets nothing.
-/

namespace LoaderBench.Staging

open LoaderBench.Platform LoaderBench.Text

namespace Command

variable (command : Command)

/-! ### While a command is built -/

@[simp] theorem env?_env_self (key : String) (value : Bytes) :
    (command.env key value).env? key = some value := by
  simp [env, env?]

theorem env?_env_other {key other : String} (value : Bytes) (h : other ≠ key) :
    (command.env key value).env? other = command.env? other := by
  have hb : (other == key) = false := by simpa using h
  simp [env, env?, List.lookup_cons, hb]

@[simp] theorem env?_arg (argument : String) (key : String) :
    (command.arg argument).env? key = command.env? key := rfl

@[simp] theorem env?_args (arguments : List String) (key : String) :
    (command.args arguments).env? key = command.env? key := rfl

@[simp] theorem program_env (key : String) (value : Bytes) :
    (command.env key value).program = command.program := rfl

@[simp] theorem program_args (arguments : List String) :
    (command.args arguments).program = command.program := rfl

@[simp] theorem program_release (wanted : Bool) :
    (command.release wanted).program = command.program := by
  cases wanted <;> rfl

@[simp] theorem directory_env (key : String) (value : Bytes) :
    (command.env key value).directory = command.directory := rfl

@[simp] theorem directory_arg (argument : String) :
    (command.arg argument).directory = command.directory := rfl

@[simp] theorem directory_args (arguments : List String) :
    (command.args arguments).directory = command.directory := rfl

@[simp] theorem directory_release (wanted : Bool) :
    (command.release wanted).directory = command.directory := by
  cases wanted <;> rfl

/-! ### When it is handed over -/

/-- Names are told apart by their bytes. -/
theorem lookup_encoded (settings : List (String × Bytes)) (key : String) :
    (settings.map fun s => (Utf8.encode s.1, s.2)).lookup (Utf8.encode key) = settings.lookup key := by
  induction settings with
  | nil => rfl
  | cons s settings ih =>
    obtain ⟨name, value⟩ := s
    by_cases h : key = name
    · subst h
      simp only [List.map_cons, List.lookup_cons, beq_self_eq_true]
    · have hbytes : (Utf8.encode key == Utf8.encode name) = false := by
        simpa using fun hsame => h (Utf8.encode_inj hsame)
      have hname : (key == name) = false := by simpa using h
      simp only [List.map_cons, List.lookup_cons, hbytes, hname, ih]

/-- A name that encodes no text is none that a command sets. -/
theorem get?_environment (inherited : Environment) (name : Bytes) :
    (command.environment inherited).get? name =
      ((Utf8.decode? name).bind command.env?).or (inherited.get? name) := by
  cases hname : Utf8.decode? name with
  | some key =>
    obtain rfl := Utf8.encode_of_decode? hname
    rw [environment, Environment.get?_setAll, ← List.map_reverse, lookup_encoded]
    rfl
  | none =>
    apply Environment.get?_setAll_other
    intro s hs
    obtain ⟨setting, -, rfl⟩ := List.mem_map.mp hs
    rintro rfl
    rw [Utf8.decode?_encode] at hname
    cases hname

theorem regular_environment {inherited : Environment} (h : inherited.Regular)
    (hnames : ∀ s ∈ command.settings, Environment.IsName (Utf8.encode s.1)) :
    (command.environment inherited).Regular := by
  apply h.setAll
  intro s hs
  obtain ⟨setting, hsetting, rfl⟩ := List.mem_map.mp hs
  exact hnames setting hsetting

theorem named?_environment (inherited : Environment) (key : String) :
    (command.environment inherited).named? key =
      (command.env? key).or (inherited.named? key) := by
  rw [Environment.named?, get?_environment, Utf8.decode?_encode, Option.bind_some, Environment.named?]

end Command
end LoaderBench.Staging
