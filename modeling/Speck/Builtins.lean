import Speck.Ast

/-!
# Builtin functions and predefined constants

`builtins.rs`, with the key names of `runtime/crumb/keys.def`. A key constant has the
value of its position in the catalog.
-/

namespace Speck

structure BuiltinFunction where
  name : String
  params : List ValueType
  returnType : ReturnType
  llvmSymbol : String

structure PredefinedConstant where
  name : String
  value : ConstantValue

namespace Builtins

/-- `FUNCTIONS`. -/
def functions : List BuiltinFunction := [
  ⟨"load_i32", [.i32, .i32], .value .i32, "@crumb_load_i32"⟩,
  ⟨"save_i32", [.i32, .i32], .value .bool, "@crumb_save_i32"⟩,
  ⟨"tone", [.f32, .f32, .f32], .void, "@crumb_tone"⟩,
  ⟨"noise", [.f32, .f32], .void, "@crumb_noise"⟩,
  ⟨"sound_play", [.i32, .f32], .void, "@crumb_sound_play"⟩,
  ⟨"sound_pause", [], .void, "@crumb_sound_pause"⟩,
  ⟨"sound_resume", [], .void, "@crumb_sound_resume"⟩,
  ⟨"sound_stop", [], .void, "@crumb_sound_stop"⟩,
  ⟨"sound_position", [], .value .f32, "@crumb_sound_position"⟩,
  ⟨"sound_seek", [.f32], .void, "@crumb_sound_seek"⟩,
  ⟨"sin", [.f32], .value .f32, "@crumb_sin"⟩,
  ⟨"print_i32", [.i32], .void, "@crumb_print_i32"⟩,
  ⟨"debug_frame", [.i32, .f32], .void, "@crumb_debug_frame"⟩,
  ⟨"clear_rgb", [.i32, .i32, .i32], .void, "@crumb_clear_rgb"⟩,
  ⟨"fill_rect", List.replicate 7 .i32, .void, "@crumb_fill_rect"⟩,
  ⟨"key_down", [.i32], .value .bool, "@crumb_key_down"⟩,
  ⟨"key_pressed", [.i32], .value .bool, "@crumb_key_pressed"⟩,
  ⟨"key_released", [.i32], .value .bool, "@crumb_key_released"⟩,
  ⟨"quit", [], .void, "@crumb_request_quit"⟩]

/-- The C suffixes of the key catalog, in order of their ids. -/
def keySuffixes : List String :=
  ["W", "A", "S", "D", "UP", "DOWN", "LEFT", "RIGHT", "SPACE", "ENTER", "ESCAPE", "F", "B",
   "C", "E", "G", "H", "I", "J", "K", "L", "M", "N", "O", "P", "Q", "R", "T", "U", "V", "X",
   "Y", "Z", "0", "1", "2", "3", "4", "5", "6", "7", "8", "9", "MINUS", "EQUAL",
   "BRACKET_LEFT", "BRACKET_RIGHT", "BACKSLASH", "SEMICOLON", "QUOTE", "BACKQUOTE", "COMMA",
   "PERIOD", "SLASH", "TAB", "BACKSPACE", "DELETE", "INSERT", "HOME", "END", "PAGE_UP",
   "PAGE_DOWN", "F1", "F2", "F3", "F4", "F5", "F6", "F7", "F8", "F9", "F10", "F11", "F12",
   "F13", "F14", "F15", "F16", "F17", "F18", "F19", "F20", "F21", "F22", "F23", "F24",
   "NUMPAD_0", "NUMPAD_1", "NUMPAD_2", "NUMPAD_3", "NUMPAD_4", "NUMPAD_5", "NUMPAD_6",
   "NUMPAD_7", "NUMPAD_8", "NUMPAD_9", "NUMPAD_ADD", "NUMPAD_SUBTRACT", "NUMPAD_MULTIPLY",
   "NUMPAD_DIVIDE", "NUMPAD_DECIMAL", "NUMPAD_EQUAL", "NUMPAD_ENTER", "SHIFT_LEFT",
   "SHIFT_RIGHT", "CONTROL_LEFT", "CONTROL_RIGHT", "ALT_LEFT", "ALT_RIGHT", "META_LEFT",
   "META_RIGHT"]

/-- All predefined values for one game's logical framebuffer. -/
def constants (resolution : Resolution) : List PredefinedConstant :=
  keySuffixes.mapIdx (fun id suffix => ⟨"KEY_" ++ suffix, .i32 (BitVec.ofNat 32 id)⟩) ++
    [⟨"FRAMEBUFFER_WIDTH", .i32 (BitVec.ofNat 32 resolution.width)⟩,
     ⟨"FRAMEBUFFER_HEIGHT", .i32 (BitVec.ofNat 32 resolution.height)⟩]

def isPredefinedConstant (name : String) : Bool :=
  (constants .default).any fun constant => constant.name == name

/-- The names do not depend on the resolution. -/
theorem map_name_constants (r r' : Resolution) :
    (constants r).map (·.name) = (constants r').map (·.name) := by
  simp only [constants, List.map_append, List.mapIdx_eq_zipIdx_map, List.map_map,
    Function.comp_def, List.map_cons, List.map_nil]

theorem isPredefinedConstant_iff {r : Resolution} {name : String} :
    isPredefinedConstant name = true ↔ name ∈ (constants r).map (·.name) := by
  simp only [map_name_constants r .default, isPredefinedConstant, List.any_eq_true, beq_iff_eq,
    List.mem_map]

/-- Every predefined constant is an `i32`. -/
theorem exists_i32_of_mem_constants {r : Resolution} {c : PredefinedConstant}
    (h : c ∈ constants r) : ∃ n, c.value = .i32 n := by
  simp only [constants, List.mem_append, List.mem_mapIdx, List.mem_cons, List.not_mem_nil,
    or_false] at h
  rcases h with ⟨id, _, rfl⟩ | rfl | rfl <;> exact ⟨_, rfl⟩

end Builtins

end Speck
