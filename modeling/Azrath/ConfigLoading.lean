import Azrath.PartialRecords

/-!
# The configuration of `config.rs`

A `ServerConfig` is read from a configuration in which any setting may be
missing. Defaults are given twice: by the attributes of the fields, which serde
reads, and by `ServerConfig::default`. A field that is there only with the
feature `http2` is a setting only at the index `true`.
-/

namespace ConfigLoading

open PartialRecords

/-- The settings of a connection. `Server` has them under the same names. -/
inductive HttpOption : Bool → Type where
  | http1_keep_alive {http2 : Bool} : HttpOption http2
  | http1_half_close {http2 : Bool} : HttpOption http2
  | http1_max_buf_size {http2 : Bool} : HttpOption http2
  | http1_pipeline_flush {http2 : Bool} : HttpOption http2
  | http1_writev {http2 : Bool} : HttpOption http2
  | http1_title_case_headers {http2 : Bool} : HttpOption http2
  | http1_preserve_header_case {http2 : Bool} : HttpOption http2
  | http1_only {http2 : Bool} : HttpOption http2
  | http2_only : HttpOption true
  | http2_initial_stream_window_size : HttpOption true
  | http2_initial_connection_window_size : HttpOption true
  | http2_adaptive_window : HttpOption true
  | http2_max_frame_size : HttpOption true
  | http2_max_concurrent_streams : HttpOption true
  | http2_max_send_buf_size : HttpOption true
  deriving DecidableEq

variable {http2 : Bool}

namespace HttpOption

def name : {http2 : Bool} → HttpOption http2 → String
  | _, http1_keep_alive => "http1_keep_alive"
  | _, http1_half_close => "http1_half_close"
  | _, http1_max_buf_size => "http1_max_buf_size"
  | _, http1_pipeline_flush => "http1_pipeline_flush"
  | _, http1_writev => "http1_writev"
  | _, http1_title_case_headers => "http1_title_case_headers"
  | _, http1_preserve_header_case => "http1_preserve_header_case"
  | _, http1_only => "http1_only"
  | _, http2_only => "http2_only"
  | _, http2_initial_stream_window_size => "http2_initial_stream_window_size"
  | _, http2_initial_connection_window_size => "http2_initial_connection_window_size"
  | _, http2_adaptive_window => "http2_adaptive_window"
  | _, http2_max_frame_size => "http2_max_frame_size"
  | _, http2_max_concurrent_streams => "http2_max_concurrent_streams"
  | _, http2_max_send_buf_size => "http2_max_send_buf_size"

/-- The type of the values that the option can be set to. -/
abbrev Value : {http2 : Bool} → HttpOption http2 → Type
  | _, http1_max_buf_size => Nat
  | _, http2_initial_stream_window_size => UInt32
  | _, http2_initial_connection_window_size => UInt32
  | _, http2_max_frame_size => UInt32
  | _, http2_max_concurrent_streams => UInt32
  | _, http2_max_send_buf_size => Nat
  | _, _ => Bool

/-- The type of the field of `ServerConfig`. -/
abbrev Field : {http2 : Bool} → HttpOption http2 → Type
  | _, http2_initial_stream_window_size => Option UInt32
  | _, http2_initial_connection_window_size => Option UInt32
  | _, http2_max_frame_size => Option UInt32
  | _, http2_max_concurrent_streams => Option UInt32
  | _, o => o.Value

/-- In the order of the declaration. -/
def all : (http2 : Bool) → List (HttpOption http2)
  | false => [http1_keep_alive, http1_half_close, http1_max_buf_size, http1_pipeline_flush,
      http1_writev, http1_title_case_headers, http1_preserve_header_case, http1_only]
  | true => [http1_keep_alive, http1_half_close, http1_max_buf_size, http1_pipeline_flush,
      http1_writev, http1_title_case_headers, http1_preserve_header_case, http1_only,
      http2_only, http2_initial_stream_window_size, http2_initial_connection_window_size,
      http2_adaptive_window, http2_max_frame_size, http2_max_concurrent_streams,
      http2_max_send_buf_size]

theorem mem_all (o : HttpOption http2) : o ∈ all http2 := by
  cases http2 <;> cases o <;> simp [all]

end HttpOption

/-- The fields of `ServerConfig`. -/
inductive Setting (http2 : Bool) where
  | max_workers
  | worker_keep_alive_secs
  | host
  | port
  | option (o : HttpOption http2)

namespace Setting

def name : Setting http2 → String
  | max_workers => "max_workers"
  | worker_keep_alive_secs => "worker_keep_alive_secs"
  | host => "host"
  | port => "port"
  | option o => o.name

abbrev Value : Setting http2 → Type
  | max_workers => Nat
  | worker_keep_alive_secs => UInt64
  | host => String
  | port => UInt16
  | option o => o.Field

def all (http2 : Bool) : List (Setting http2) :=
  [max_workers, worker_keep_alive_secs, host, port] ++ (HttpOption.all http2).map option

theorem mem_all (s : Setting http2) : s ∈ all http2 := by
  cases s with
  | option o => simp [all, HttpOption.mem_all]
  | _ => simp [all]

end Setting

abbrev ServerConfig (http2 : Bool) : Type := ∀ s : Setting http2, s.Value

/-- What the configuration file and the environment give together. -/
abbrev Config (http2 : Bool) : Type := ∀ s : Setting http2, Option s.Value

/-! ## Attributes -/

/-- What serde does about a field that is missing. A field of type `Option` may
be missing without an attribute. -/
inductive Attribute : Type → Type 1 where
  | required {T : Type} : Attribute T
  | default {T : Type} (value : T) : Attribute T
  | optional {T : Type} : Attribute (Option T)

/-- The code that serde derives for one field of a struct. -/
structure Serde (Err : Type) where
  missing_field : String → Err
  field : {T : Type} → String → Attribute T → Option T → Except Err T
  present : ∀ {T : Type} (name : String) (attr : Attribute T) (v : T),
    field name attr (some v) = .ok v
  absent_default : ∀ {T : Type} (name : String) (v : T), field name (.default v) none = .ok v
  absent_optional : ∀ {T : Type} (name : String),
    field name (.optional : Attribute (Option T)) none = .ok none
  absent_required : ∀ {T : Type} (name : String),
    field name (.required : Attribute T) none = .error (missing_field name)

/-- The value of a missing field. -/
def Attribute.fill : {T : Type} → Attribute T → Option T
  | _, required => none
  | _, default v => some v
  | _, optional => some none

def default_max_workers (num_cpus : Nat) : Nat := num_cpus * 15

def default_keep_alive_secs : UInt64 := 6

def default_host : String := "127.0.0.1"

def default_port : UInt16 := 3000

def default_max_buf_size : Nat := 524288

namespace ServerConfig

/-- The attributes of the fields. `#[serde(default)]` without a function is the
default of the type. -/
def serde_default (num_cpus : Nat) : {http2 : Bool} → (s : Setting http2) → Attribute s.Value
  | _, .max_workers => .default (default_max_workers num_cpus)
  | _, .worker_keep_alive_secs => .default default_keep_alive_secs
  | _, .host => .default default_host
  | _, .port => .default default_port
  | _, .option .http1_keep_alive => .default false
  | _, .option .http1_half_close => .default false
  | _, .option .http1_max_buf_size => .default default_max_buf_size
  | _, .option .http1_pipeline_flush => .default false
  | _, .option .http1_writev => .default false
  | _, .option .http1_title_case_headers => .default false
  | _, .option .http1_preserve_header_case => .default false
  | _, .option .http1_only => .default false
  | _, .option .http2_only => .default false
  | _, .option .http2_initial_stream_window_size => .optional
  | _, .option .http2_initial_connection_window_size => .optional
  | _, .option .http2_adaptive_window => .required
  | _, .option .http2_max_frame_size => .optional
  | _, .option .http2_max_concurrent_streams => .optional
  | _, .option .http2_max_send_buf_size => .required

def default (num_cpus : Nat) : {http2 : Bool} → ServerConfig http2
  | _, .max_workers => num_cpus * 15
  | _, .worker_keep_alive_secs => (10 : UInt64)
  | _, .host => "0.0.0.0"
  | _, .port => (8080 : UInt16)
  | _, .option .http1_keep_alive => true
  | _, .option .http1_half_close => false
  | _, .option .http1_max_buf_size => (524288 : Nat)
  | _, .option .http1_pipeline_flush => false
  | _, .option .http1_writev => true
  | _, .option .http1_title_case_headers => false
  | _, .option .http1_preserve_header_case => false
  | _, .option .http1_only => false
  | _, .option .http2_only => false
  | _, .option .http2_initial_stream_window_size => none
  | _, .option .http2_initial_connection_window_size => none
  | _, .option .http2_adaptive_window => true
  | _, .option .http2_max_frame_size => none
  | _, .option .http2_max_concurrent_streams => none
  | _, .option .http2_max_send_buf_size => (524288 : Nat)

variable {Err : Type}

/-- `try_deserialize`: the first field that fails is the error. -/
def try_from (serde : Serde Err) (num_cpus : Nat) (config : Config http2) :
    Except Err (ServerConfig http2) :=
  collect (fun s => serde.field s.name (serde_default num_cpus s) (config s))
    (Setting.all http2) Setting.mem_all

/-- `build` is what comes of reading the file and the environment. -/
def new (serde : Serde Err) (num_cpus : Nat) (build : Except Err (Config http2)) :
    Except Err (ServerConfig http2) :=
  match build with
  | .error err => .error err
  | .ok config => try_from serde num_cpus config

/-- A `Duration` in nanoseconds. -/
def worker_keep_alive (config : ServerConfig http2) : Nat :=
  UInt64.toNat (config .worker_keep_alive_secs) * 1000000000

end ServerConfig

/-! ## What loads -/

namespace Serde
variable {T Err : Type}

theorem field_eq_ok_iff (serde : Serde Err) (name : String) (attr : Attribute T)
    (found : Option T) (v : T) :
    serde.field name attr found = .ok v ↔ found.or attr.fill = some v := by
  cases found with
  | some w => simp [serde.present]
  | none =>
    cases attr with
    | required => simp [serde.absent_required, Attribute.fill]
    | default w => simp [serde.absent_default, Attribute.fill]
    | optional => simp [serde.absent_optional, Attribute.fill]

theorem missing_of_field {serde : Serde Err} {name : String} {attr : Attribute T}
    {found : Option T} {err : Err} (h : serde.field name attr found = .error err) :
    found = none ∧ attr.fill = none ∧ err = serde.missing_field name := by
  cases found with
  | some w => simp [serde.present] at h
  | none =>
    cases attr with
    | required => simpa [serde.absent_required, Attribute.fill, eq_comm] using h
    | default w => simp [serde.absent_default] at h
    | optional => simp [serde.absent_optional] at h

end Serde

namespace ServerConfig
variable {Err : Type} {serde : Serde Err} {num_cpus : Nat} {config : Config http2}

theorem try_from_eq_ok_iff {r : ServerConfig http2} :
    try_from serde num_cpus config = .ok r ↔
      ∀ s, (config s).or (serde_default num_cpus s).fill = some (r s) := by
  rw [try_from, collect_eq_ok_iff]
  exact forall_congr' fun s => serde.field_eq_ok_iff _ _ _ _

/-- A configuration that does not load lacks a required setting, and the error names it. -/
theorem missing_of_try_from {err : Err} (h : try_from serde num_cpus config = .error err) :
    ∃ s : Setting http2, config s = none ∧ (serde_default num_cpus s).fill = none ∧
      err = serde.missing_field s.name := by
  obtain ⟨s, failed⟩ := exists_of_firstError (collect_eq_error_iff.mp h)
  exact ⟨s, Serde.missing_of_field failed⟩

theorem loads_iff :
    (∃ r, try_from serde num_cpus config = .ok r) ↔
      ∀ s : Setting http2, (serde_default num_cpus s).fill = none → (config s).isSome := by
  constructor
  · rintro ⟨r, done⟩ s required
    have field := try_from_eq_ok_iff.mp done s
    simp_all
  · intro h
    cases outcome : try_from serde num_cpus config with
    | ok r => exact ⟨r, rfl⟩
    | error err =>
      obtain ⟨s, missing, required, _⟩ := missing_of_try_from outcome
      simpa [missing] using h s required

/-- Without the feature every configuration loads. -/
theorem http1_loads (serde : Serde Err) (num_cpus : Nat) (config : Config false) :
    ∃ r, try_from serde num_cpus config = .ok r :=
  loads_iff.mpr fun s required => by
    cases s with
    | option o => cases o <;> cases required
    | _ => cases required

/-- With it, two settings have no default for serde. -/
theorem http2_loads_iff (serde : Serde Err) (num_cpus : Nat) (config : Config true) :
    (∃ r, try_from serde num_cpus config = .ok r) ↔
      (config (.option .http2_adaptive_window)).isSome ∧
        (config (.option .http2_max_send_buf_size)).isSome := by
  rw [loads_iff]
  constructor
  · intro h
    exact ⟨h _ rfl, h _ rfl⟩
  · rintro ⟨adaptive, buffer⟩ s required
    cases s with
    | option o =>
      cases o with
      | http2_adaptive_window => exact adaptive
      | http2_max_send_buf_size => exact buffer
      | _ => cases required
    | _ => cases required

end ServerConfig

/-- The two defaults of the setting are not the same, or serde has none. -/
def Setting.deviates : {http2 : Bool} → Setting http2 → Bool
  | _, .worker_keep_alive_secs => true
  | _, .host => true
  | _, .port => true
  | _, .option .http1_keep_alive => true
  | _, .option .http1_writev => true
  | _, .option .http2_adaptive_window => true
  | _, .option .http2_max_send_buf_size => true
  | _, _ => false

theorem fill_eq_default_iff (num_cpus : Nat) (s : Setting http2) :
    (ServerConfig.serde_default num_cpus s).fill = some (ServerConfig.default num_cpus s) ↔
      s.deviates = false := by
  cases s with
  | option o => cases o <;> simp [ServerConfig.serde_default, ServerConfig.default,
      Attribute.fill, Setting.deviates, default_max_buf_size]
  | _ => simp [ServerConfig.serde_default, ServerConfig.default, Attribute.fill, Setting.deviates,
      default_max_workers, default_keep_alive_secs, default_host, default_port]

/-- What loads is the configuration laid over `ServerConfig::default` if and only
if each setting is there whose defaults are not the same. -/
theorem try_from_overlay_iff {Err : Type} (serde : Serde Err) (num_cpus : Nat)
    (config : Config http2) :
    ServerConfig.try_from serde num_cpus config =
        .ok (overlay (ServerConfig.default num_cpus) config) ↔
      ∀ s : Setting http2, s.deviates = true → (config s).isSome = true := by
  rw [ServerConfig.try_from_eq_ok_iff]
  refine forall_congr' fun s => ?_
  cases found : config s with
  | some v => simp [overlay, found]
  | none =>
    have same := fill_eq_default_iff num_cpus s
    simpa [overlay, found] using same

/-! ## The environment alone -/

/-- Errors are told as the name of the field. -/
def named : Serde String where
  missing_field := id
  field name attr found :=
    match found.or attr.fill with
    | some v => .ok v
    | none => .error name
  present _ _ _ := rfl
  absent_default _ _ := rfl
  absent_optional _ := rfl
  absent_required _ := rfl

/-- Three variables `AZRATH_*` and no file. -/
def environment : {http2 : Bool} → Config http2
  | _, .max_workers => some (4 : Nat)
  | _, .host => some "127.0.0.1"
  | _, .port => some (9000 : UInt16)
  | _, _ => none

/-- With the feature this does not load at all, and without it not to the defaults. -/
theorem environment_not_overlay :
    ServerConfig.new named 8 (.ok (environment : Config true)) =
        .error "http2_adaptive_window" ∧
      ∃ r, ServerConfig.new named 8 (.ok (environment : Config false)) = .ok r ∧
        r .worker_keep_alive_secs = (6 : UInt64) ∧
        overlay (ServerConfig.default 8) environment (.worker_keep_alive_secs : Setting false) =
          (10 : UInt64) := by
  refine ⟨?_, ?_⟩
  · unfold ServerConfig.new ServerConfig.try_from
    rw [collect_eq_error_iff]
    rfl
  obtain ⟨r, done⟩ := ServerConfig.http1_loads named 8 environment
  have field := ServerConfig.try_from_eq_ok_iff.mp done .worker_keep_alive_secs
  exact ⟨r, done, (Option.some.inj field).symm, rfl⟩

end ConfigLoading
