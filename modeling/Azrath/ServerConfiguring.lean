import Azrath.ServerAccepting
import Azrath.ServerOptions

/-!
# What `configure` makes of the options

`configure` is seen through the settings that hyper documents. Ten of the
options have a setting of their own. The two that require a protocol share the
mode, and an adaptive window shares the window sizes.
-/

namespace ServerConfiguring

open ConfigLoading ErrorTypes PartialRecords ReactorModel ServerAccepting ServerOptions

universe u v w
variable {http2 : Bool} {Http : Type u} {L : Type v} {X : Type w} {Err : Type}

theorem mem_configured (o : HttpOption http2) : o ∈ configured http2 := by
  cases http2 <;> cases o <;> simp [configured]

theorem configured_nodup (http2 : Bool) : (configured http2).Nodup := by
  cases http2 <;> decide

/-! ## The settings of the options -/

/-- The setting that an option is about. -/
def get : {http2 : Bool} → (o : HttpOption http2) → Settings → Option o.Value
  | _, .http1_keep_alive, s => some s.keep_alive
  | _, .http1_half_close, s => some s.half_close
  | _, .http1_max_buf_size, s => s.max_buf_size
  | _, .http1_pipeline_flush, s => some s.pipeline_flush
  | _, .http1_writev, s => s.writev
  | _, .http1_title_case_headers, s => some s.title_case_headers
  | _, .http1_preserve_header_case, s => some s.preserve_header_case
  | _, .http1_only, s => some (decide (s.mode = .http1Only))
  | _, .http2_only, s => some (decide (s.mode = .http2Only))
  | _, .http2_initial_stream_window_size, s => some s.initial_stream_window_size
  | _, .http2_initial_connection_window_size, s => some s.initial_connection_window_size
  | _, .http2_adaptive_window, s => some s.adaptive_window
  | _, .http2_max_frame_size, s => some s.max_frame_size
  | _, .http2_max_concurrent_streams, s => s.max_concurrent_streams
  | _, .http2_max_send_buf_size, s => some s.max_send_buf_size

/-- No other option writes the setting. -/
def alone : {http2 : Bool} → HttpOption http2 → Bool
  | _, .http1_only => false
  | _, .http2_only => false
  | _, .http2_initial_stream_window_size => false
  | _, .http2_initial_connection_window_size => false
  | _, .http2_adaptive_window => false
  | _, _ => true

theorem get_set {o : HttpOption http2} (h : alone o = true) (window : UInt32) (val : o.Value)
    (s : Settings) : get o (s.set window o val) = some val := by
  cases o <;> first | rfl | cases h

theorem get_set_of_ne {o o' : HttpOption http2} (h : alone o = true) (ne : o' ≠ o)
    (window : UInt32) (val : o'.Value) (s : Settings) :
    get o (s.set window o' val) = get o s := by
  cases o' with
  | http2_adaptive_window =>
    cases val <;> cases o <;> first | rfl | cases h
  | _ => cases o <;> first | rfl | exact absurd rfl ne | cases h

/-- An option with a setting of its own decides it when it is set. -/
theorem get_applyAll (window : UInt32) (options : ∀ o : HttpOption http2, Option o.Value)
    {o : HttpOption http2} (h : alone o = true) (s : Settings) :
    get o (applyAll (Settings.set window) options (configured http2) s) =
      (options o).or (get o s) := by
  have owned := applyAll_owned (m := options) (get o) (fun val s => get_set h window val s)
    (fun o' ne val s => get_set_of_ne h ne window val s)
    (mem_configured o) (configured_nodup http2) s
  rw [owned]
  cases options o <;> rfl

/-! ## The shared settings -/

/-- A setter makes the same mode of the same mode. -/
theorem mode_set_congr {window : UInt32} {o : HttpOption true} (val : o.Value) {s s' : Settings}
    (same : s.mode = s'.mode) : (s.set window o val).mode = (s'.set window o val).mode := by
  cases o with
  | http1_only => rfl
  | http2_only => rfl
  | http2_adaptive_window => cases val <;> exact same
  | _ => exact same

/-- Of two options that require a protocol the later one decides. -/
theorem mode_applyAll (window : UInt32) (options : ∀ o : HttpOption true, Option o.Value)
    (s : Settings) :
    (applyAll (Settings.set window) options (configured true) s).mode =
      match options .http2_only, options .http1_only with
      | some true, _ => .http2Only
      | some false, _ => .fallback
      | none, some true => .http1Only
      | none, some false => .fallback
      | none, none => s.mode := by
  let requires (o : HttpOption true) : Bool := o == .http1_only || o == .http2_only
  have kept : ∀ o : HttpOption true, requires o = false →
      ∀ (val : o.Value) (s : Settings), (s.set window o val).mode = s.mode := by
    intro o other val s
    cases o with
    | http1_only => cases other
    | http2_only => cases other
    | http2_adaptive_window => cases val <;> rfl
    | _ => rfl
  have two : (configured true).filter requires = [.http1_only, .http2_only] := rfl
  rw [applyAll_filter Settings.mode kept (fun _ val _ _ => mode_set_congr val), two]
  simp only [applyAll]
  rcases options .http1_only with _ | (_ | _) <;>
    rcases options .http2_only with _ | (_ | _) <;> rfl

/-- The flow control of HTTP/2. -/
structure Windows where
  adaptive : Bool
  stream : UInt32
  connection : UInt32

def windows (s : Settings) : Windows :=
  ⟨s.adaptive_window, s.initial_stream_window_size, s.initial_connection_window_size⟩

theorem windows_set_congr {window : UInt32} {o : HttpOption true} (val : o.Value)
    {s s' : Settings} (same : windows s = windows s') :
    windows (s.set window o val) = windows (s'.set window o val) := by
  obtain ⟨adaptive, stream, connection⟩ := Windows.mk.inj same
  cases o with
  | http2_initial_stream_window_size => exact congrArg (Windows.mk false val) connection
  | http2_initial_connection_window_size =>
    exact congrArg (fun stream => Windows.mk false stream val) stream
  | http2_adaptive_window =>
    cases val with
    | true => rfl
    | false => simp [windows, Settings.set, stream, connection]
  | _ => exact same

/-- An adaptive window comes after the sizes and overrides them. -/
theorem windows_applyAll (window : UInt32) (options : ∀ o : HttpOption true, Option o.Value)
    (s : Settings) :
    windows (applyAll (Settings.set window) options (configured true) s) =
      if options .http2_adaptive_window = some true then ⟨true, window, window⟩
      else
        { adaptive :=
            if (options .http2_adaptive_window).isSome ∨
              (options .http2_initial_stream_window_size).isSome ∨
              (options .http2_initial_connection_window_size).isSome then false
            else s.adaptive_window
          stream := (options .http2_initial_stream_window_size).getD s.initial_stream_window_size
          connection := (options .http2_initial_connection_window_size).getD
            s.initial_connection_window_size } := by
  let flow (o : HttpOption true) : Bool := o == .http2_initial_stream_window_size ||
    o == .http2_initial_connection_window_size || o == .http2_adaptive_window
  have kept : ∀ o : HttpOption true, flow o = false →
      ∀ (val : o.Value) (s : Settings), windows (s.set window o val) = windows s := by
    intro o other val s
    cases o <;> first | rfl | cases other
  have three : (configured true).filter flow = [.http2_initial_stream_window_size,
      .http2_initial_connection_window_size, .http2_adaptive_window] := rfl
  rw [applyAll_filter windows kept (fun _ val _ _ => windows_set_congr val), three]
  simp only [applyAll]
  cases options .http2_initial_stream_window_size <;>
    cases options .http2_initial_connection_window_size <;>
    rcases options .http2_adaptive_window with _ | (_ | _) <;> rfl

/-! ## What is served -/

/-- Each option that is set has a value for which its setter does not panic. -/
def Takes (hyper : Hyper http2 Http) (options : ∀ o : HttpOption http2, Option o.Value) : Prop :=
  ∀ o val, options o = some val → accepts hyper.minimum o val = true

theorem configure_ok_iff {hyper : Hyper http2 Http} {self : Server http2 L} {http : Http} :
    (∃ http', configure hyper self http = .ok http') ↔ Takes hyper self.options := by
  rw [configure, tryAll_ok_iff hyper.setters]
  exact forall_congr' fun o => ⟨fun h => h (mem_configured o), fun h _ => h⟩

theorem settings_of_configure {hyper : Hyper http2 Http} {self : Server http2 L}
    {http http' : Http} (done : configure hyper self http = .ok http') :
    hyper.settings http' = applyAll (Settings.set hyper.window) self.options
      (configured http2) (hyper.settings http) :=
  view_of_tryAll hyper.setters done

/-- The settings reflect all options that are set, and are those of a fresh
builder where none is. -/
structure Reflects (options : ∀ o : HttpOption true, Option o.Value) (fresh s : Settings) :
    Prop where
  http1_only : options .http1_only = some true → s.mode = .http1Only
  http2_only : options .http2_only = some true → s.mode = .http2Only
  both : options .http1_only ≠ some true → options .http2_only ≠ some true → s.mode = .fallback
  adaptive : options .http2_adaptive_window = some true → s.adaptive_window = true
  sizes : options .http2_adaptive_window ≠ some true →
    s.initial_stream_window_size =
        (options .http2_initial_stream_window_size).getD fresh.initial_stream_window_size ∧
      s.initial_connection_window_size =
        (options .http2_initial_connection_window_size).getD fresh.initial_connection_window_size
  /-- A size that is set turns an adaptive window off. -/
  fixed : options .http2_adaptive_window ≠ some true →
    s.adaptive_window =
      if (options .http2_adaptive_window).isSome ∨
        (options .http2_initial_stream_window_size).isSome ∨
        (options .http2_initial_connection_window_size).isSome then false
      else fresh.adaptive_window
  others : ∀ o, alone o = true → get o s = (options o).or (get o fresh)

/-- The mode is the only setting in which one option can cancel another. -/
theorem reflects_applyAll (window : UInt32) {options : ∀ o : HttpOption true, Option o.Value}
    {fresh : Settings} (new_mode : fresh.mode = .fallback)
    (apart : ¬ (options .http1_only = some true ∧ options .http2_only = some true))
    (free : ¬ (options .http1_only = some true ∧ options .http2_only = some false)) :
    Reflects options fresh
      (applyAll (Settings.set window) options (configured true) fresh) where
  http1_only one := by
    have two : options .http2_only = none := by
      cases two : options .http2_only with
      | none => rfl
      | some val =>
        cases val with
        | false => exact absurd ⟨one, two⟩ free
        | true => exact absurd ⟨one, two⟩ apart
    rw [mode_applyAll, one, two]
  http2_only two := by rw [mode_applyAll, two]
  both one two := by
    rw [mode_applyAll]
    split <;> simp_all
  adaptive on := by
    have flow := windows_applyAll window options fresh
    rw [if_pos on] at flow
    exact congrArg Windows.adaptive flow
  sizes off := by
    have flow := windows_applyAll window options fresh
    rw [if_neg off] at flow
    exact ⟨congrArg Windows.stream flow, congrArg Windows.connection flow⟩
  fixed off := by
    have flow := windows_applyAll window options fresh
    rw [if_neg off] at flow
    exact congrArg Windows.adaptive flow
  others o own := get_applyAll window options own fresh

/-- Two required protocols aside, the options are reflected unless HTTP/1 is
required and HTTP/2 is explicitly not. -/
theorem configure_reflects_iff (hyper : Hyper true Http) (server : Server true L)
    (apart : ¬ (server.options .http1_only = some true ∧ server.options .http2_only = some true)) :
    ((∃ http, configure hyper server hyper.new = .ok http) ↔ Takes hyper server.options) ∧
      ∀ http, configure hyper server hyper.new = .ok http →
        (Reflects server.options (hyper.settings hyper.new) (hyper.settings http) ↔
          ¬ (server.options .http1_only = some true ∧
            server.options .http2_only = some false)) := by
  refine ⟨configure_ok_iff, fun http done => ?_⟩
  rw [settings_of_configure done]
  constructor
  · rintro reflects ⟨one, two⟩
    have mode := reflects.http1_only one
    rw [mode_applyAll, two] at mode
    cases mode
  · exact fun free => reflects_applyAll hyper.window hyper.new_mode apart free

/-- A server bound to the listener `()`. -/
def bound : Server http2 Unit := { (Server.default : Server http2 Unit) with listener := some () }

/-- Window sizes, and HTTP/2 required. -/
def windowed : Server true Unit :=
  Builder.http2_only (Builder.http2_initial_stream_window_size bound (some 4096)) true

theorem configure_reflects_iff_windowed :
    ((∃ http, configure (hyper014 true) windowed (hyper014 true).new = .ok http) ↔
        Takes (hyper014 true) windowed.options) ∧
      ∀ http, configure (hyper014 true) windowed (hyper014 true).new = .ok http →
        (Reflects windowed.options ((hyper014 true).settings (hyper014 true).new)
            ((hyper014 true).settings http) ↔
          ¬ (windowed.options .http1_only = some true ∧
            windowed.options .http2_only = some false)) :=
  configure_reflects_iff (hyper014 true) windowed (by decide)

/-- HTTP/1 is required and HTTP/2 is not, and both are served. -/
theorem http1_only_cancelled :
    let server : Server true Unit := Builder.http2_only (Builder.http1_only bound true) false
    server.options .http1_only = some true ∧ server.options .http2_only ≠ some true ∧
      ∃ http, configure (hyper014 true) server (hyper014 true).new = .ok http ∧
        http.mode = .fallback := by
  intro server
  exact ⟨rfl, by decide, _, rfl, rfl⟩

/-! ## The configuration and the builder methods -/

/-- What the field of a configuration sets the option to. -/
def given : {http2 : Bool} → (o : HttpOption http2) → o.Field → Option o.Value
  | _, .http1_keep_alive, val => some val
  | _, .http1_half_close, val => some val
  | _, .http1_max_buf_size, val => some val
  | _, .http1_pipeline_flush, val => some val
  | _, .http1_writev, val => some val
  | _, .http1_title_case_headers, val => some val
  | _, .http1_preserve_header_case, val => some val
  | _, .http1_only, val => some val
  | _, .http2_only, val => some val
  | _, .http2_initial_stream_window_size, sz => sz
  | _, .http2_initial_connection_window_size, sz => sz
  | _, .http2_adaptive_window, val => some val
  | _, .http2_max_frame_size, sz => sz
  | _, .http2_max_concurrent_streams, max => max
  | _, .http2_max_send_buf_size, val => some val

/-- The builder method of an option, called with the field of a configuration. -/
def builder : {http2 : Bool} → (o : HttpOption http2) → o.Field → Server http2 L → Server http2 L
  | _, .http1_keep_alive, val, self => Builder.http1_keep_alive self val
  | _, .http1_half_close, val, self => Builder.http1_half_close self val
  | _, .http1_max_buf_size, val, self => Builder.http1_max_buf_size self val
  | _, .http1_pipeline_flush, val, self => Builder.http1_pipeline_flush self val
  | _, .http1_writev, val, self => Builder.http1_writev self val
  | _, .http1_title_case_headers, val, self => Builder.http1_title_case_headers self val
  | _, .http1_preserve_header_case, val, self => Builder.http1_preserve_header_case self val
  | _, .http1_only, val, self => Builder.http1_only self val
  | _, .http2_only, val, self => Builder.http2_only self val
  | _, .http2_initial_stream_window_size, sz, self =>
    Builder.http2_initial_stream_window_size self sz
  | _, .http2_initial_connection_window_size, sz, self =>
    Builder.http2_initial_connection_window_size self sz
  | _, .http2_adaptive_window, val, self => Builder.http2_adaptive_window self val
  | _, .http2_max_frame_size, sz, self => Builder.http2_max_frame_size self sz
  | _, .http2_max_concurrent_streams, max, self => Builder.http2_max_concurrent_streams self max
  | _, .http2_max_send_buf_size, val, self => Builder.http2_max_send_buf_size self val

theorem builder_eq_put (o : HttpOption http2) (val : o.Field) (self : Server http2 L) :
    builder o val self = self.put o (given o val) := by
  cases o <;> rfl

/-- Every builder method, called with the value of the configuration. -/
def built (config : ServerConfig http2) (self : Server http2 L) : Server http2 L :=
  (HttpOption.all http2).foldl (fun self o => builder o (config (.option o)) self) self

theorem built_options (config : ServerConfig http2) (self : Server http2 L) :
    (built config self).options = fun o => given o (config (.option o)) := by
  have written : ∀ (keys : List (HttpOption http2)) (self : Server http2 L),
      (keys.foldl (fun self o => builder o (config (.option o)) self) self).options =
        keys.foldl (fun m o => Function.update m o (given o (config (.option o))))
          self.options := by
    intro keys
    induction keys with
    | nil => exact fun _ => rfl
    | cons o rest ih =>
      intro self
      rw [List.foldl_cons, List.foldl_cons, ih, builder_eq_put]
      rfl
  funext o
  rw [built, written]
  exact foldl_update (fun o => given o (config (.option o))) _ _ (Or.inl (HttpOption.mem_all o))

/-- The options that `from_config` takes from the configuration. -/
def loaded : {http2 : Bool} → HttpOption http2 → Bool
  | _, .http1_keep_alive => true
  | _, .http1_half_close => true
  | _, .http1_max_buf_size => true
  | _, .http2_only => true
  | _, .http2_max_send_buf_size => true
  | _, _ => false

theorem from_config_options {boxed : String → X} {display : Err → String}
    {bind : String → Except (IoError X) L} {config : ServerConfig http2} {server : Server http2 L}
    (h : from_config boxed display (.ok config) bind = .ok server) (o : HttpOption http2) :
    server.options o = if loaded o then given o (config (.option o)) else none := by
  simp only [from_config] at h
  split at h
  · cases h
  · cases h
    cases http2 <;> cases o <;> rfl

/-- The settings of the builder that the server serves with, unless hyper panics. -/
def produced (hyper : Hyper http2 Http) (server : Server http2 L) : Option Settings :=
  (configure hyper server hyper.new).toOption.map hyper.settings

section Produced
variable {hyper : Hyper http2 Http} {server : Server http2 L}

theorem produced_of_takes (h : Takes hyper server.options) :
    produced hyper server = some (applyAll (Settings.set hyper.window) server.options
      (configured http2) (hyper.settings hyper.new)) := by
  obtain ⟨http, done⟩ := configure_ok_iff.mpr h
  rw [produced, done, ← settings_of_configure done]
  rfl

theorem produced_eq_none (h : ¬ Takes hyper server.options) : produced hyper server = none := by
  cases outcome : configure hyper server hyper.new with
  | error message =>
    rw [produced, outcome]
    rfl
  | ok http => exact absurd (configure_ok_iff.mp ⟨http, outcome⟩) h

theorem takes_of_produced {s : Settings} (h : produced hyper server = some s) :
    Takes hyper server.options := by
  by_contra refused
  cases (produced_eq_none refused).symm.trans h

theorem get_produced {s : Settings} (h : produced hyper server = some s) {o : HttpOption http2}
    (own : alone o = true) :
    get o s = (server.options o).or (get o (hyper.settings hyper.new)) := by
  have settings := (produced_of_takes (takes_of_produced h)).symm.trans h
  rw [← Option.some.inj settings]
  exact get_applyAll hyper.window server.options own _

end Produced

section FromConfig
variable {hyper : Hyper http2 Http} {boxed : String → X} {display : Err → String}
variable {bind : String → Except (IoError X) L} {config : ServerConfig http2}
variable {server : Server http2 L}

/-- hyper panics over nothing that `from_config` leaves out. -/
theorem from_config_takes_iff (h : from_config boxed display (.ok config) bind = .ok server) :
    Takes hyper server.options ↔ Takes hyper fun o => given o (config (.option o)) := by
  have options := from_config_options h
  constructor
  · intro takes o val set
    cases here : loaded o with
    | true => exact takes o val ((options o).trans ((if_pos here).trans set))
    | false => cases o <;> first | rfl | cases here
  · intro takes o val set
    rw [options] at set
    split at set
    · exact takes o val set
    · cases set

/-- The options that `from_config` leaves out keep the defaults of hyper. -/
theorem get_from_config (h : from_config boxed display (.ok config) bind = .ok server)
    {s : Settings} (done : produced hyper server = some s) {o : HttpOption http2}
    (own : alone o = true) (out : loaded o = false) :
    get o s = get o (hyper.settings hyper.new) := by
  rw [get_produced done own, from_config_options h, if_neg (by simp [out])]
  rfl

/-- Of two configurations that differ only there, the server serves the same. -/
theorem from_config_ignores {config' : ServerConfig http2} {server' : Server http2 L}
    (h : from_config boxed display (.ok config) bind = .ok server)
    (h' : from_config boxed display (.ok config') bind = .ok server')
    (same : ∀ o, loaded o = true → config (.option o) = config' (.option o)) :
    produced hyper server = produced hyper server' := by
  have options : server.options = server'.options := by
    funext o
    rw [from_config_options h, from_config_options h']
    split
    · rename_i here
      rw [same o here]
    · rfl
  simp only [produced, configure, options]

/-- A server from a configuration and one from the builder methods configure the
same settings only where hyper panics for both. -/
theorem from_config_agrees_iff (hyper : Hyper http2 Http)
    (h : from_config boxed display (.ok config) bind = .ok server) (self : Server http2 L) :
    produced hyper server = produced hyper (built config self) ↔
      ¬ Takes hyper fun o => given o (config (.option o)) := by
  have options := built_options config self
  constructor
  · intro same takes
    have done := produced_of_takes ((from_config_takes_iff h).mpr takes)
    have auto := get_from_config h done (o := .http1_writev) rfl rfl
    have set := get_produced (same.symm.trans done) (o := .http1_writev) rfl
    rw [options, auto] at set
    cases hyper.new_writev.symm.trans set
  · intro refused
    rw [produced_eq_none (mt (from_config_takes_iff h).mp refused),
      produced_eq_none (by rwa [options])]

end FromConfig

/-- The defaults, on eight processors. -/
def from_default : Except (IoError String) (Server true Unit) :=
  from_config id id (Except.ok (ServerConfig.default 8) : Except String _) fun _ => .ok ()

theorem from_config_agrees_iff_default :
    ∃ server, from_default = .ok server ∧
      (produced (hyper014 true) server =
          produced (hyper014 true) (built (ServerConfig.default 8) bound) ↔
        ¬ Takes (hyper014 true) fun o => given o (ServerConfig.default 8 (.option o))) := by
  have h : from_default = .ok _ := rfl
  exact ⟨_, h, from_config_agrees_iff (hyper014 true) h bound⟩

/-- The configuration file of the repository. -/
def shipped : Config true
  | .max_workers => some (30 : Nat)
  | .worker_keep_alive_secs => some (10 : UInt64)
  | .host => some "0.0.0.0"
  | .port => some (8080 : UInt16)
  | .option .http1_keep_alive => some true
  | .option .http1_half_close => some false
  | .option .http1_max_buf_size => some (524288 : Nat)
  | .option .http2_max_send_buf_size => some (524288 : Nat)
  | .option .http2_only => some false
  | .option .http2_adaptive_window => some true
  | _ => none

/-- The adaptive window of the file is dropped. -/
theorem shipped_window_dropped :
    ∃ (config : ServerConfig true) (server : Server true Unit),
      ServerConfig.new named 8 (.ok shipped) = .ok config ∧
        from_config id id (Except.ok config : Except String _) (fun _ => .ok ()) = .ok server ∧
        (produced (hyper014 true) server).map Settings.adaptive_window = some false ∧
        (produced (hyper014 true) (built config bound)).map Settings.adaptive_window =
          some true := by
  refine ⟨fun s => (shipped s).getD ((ServerConfig.serde_default 8 s).fill.getD
    (ServerConfig.default 8 s)), _, ServerConfig.try_from_eq_ok_iff.mpr ?_, rfl, rfl, rfl⟩
  intro s
  cases s with
  | option o => cases o <;> rfl
  | _ => rfl

/-! ## The accept loop -/

section Serving
variable {bits : Nat} {W R : Type u} {K : Type v} [Waker W K]
variable {T Addr S E Bound : Type u} [Clone S] [Clone Http]

/-- `Server::serve`. The builder is configured after the reactor is there, and once. -/
def serve (hyper : Hyper http2 Http) (boxed : ReactorError E → E) (self : Server http2 Bound)
    (reactor : Except (ReactorError E) (State bits W R)) (service : S)
    (turns : List (Turn bits W R T Addr E)) : Served T Addr S Http E :=
  match self.listener with
  | none => ⟨[], some (.panicked "server not bound")⟩
  | some _ =>
    match reactor with
    | .error err => ⟨[], some (.returned ⟨.other, boxed err⟩)⟩
    | .ok s =>
      match configure hyper self hyper.new with
      | .error message => ⟨[], some (.panicked message)⟩
      | .ok http => acceptLoop boxed http service s turns

variable {hyper : Hyper http2 Http} {boxed : ReactorError E → E} {self : Server http2 Bound}
variable {reactor : Except (ReactorError E) (State bits W R)} {service : S}
variable {turns : List (Turn bits W R T Addr E)}

/-- Every connection is served by a clone of the one builder that was configured. -/
theorem serve_builder {task : Task T Addr S Http}
    (h : task ∈ (serve hyper boxed self reactor service turns).tasks) :
    ∃ http, configure hyper self hyper.new = .ok http ∧ task.builder = Clone.clone http := by
  simp only [serve] at h
  split at h
  · cases h
  · split at h
    · cases h
    · rename_i s
      split at h
      · cases h
      · rename_i http done
        have spawned := (acceptLoop_exact boxed http service s turns).1
        have builders := (List.forall₂_and_left (p := fun task : Task T Addr S Http =>
          task.builder = Clone.clone http) _ _).mp (spawned.imp fun _ _ own => ⟨own.builder, own⟩)
        exact ⟨http, done, builders.1 task h⟩

end Serving

end ServerConfiguring
