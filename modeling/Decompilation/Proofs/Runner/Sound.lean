import Decompilation.Proofs.Disk.Sound
import Decompilation.Proofs.Runner.Host

/-!
# Runs on sound machines

Whatever a program that is started leaves behind, a sound machine stays sound.
-/

namespace Decompilation

variable {cwd : Place}

namespace Sound

theorem steady : Steady (Sound cwd) where
  of_eq hm hdisk hcwd _ _ _ _ := hm.of_eq hdisk hcwd
  next hm := hm.of_eq rfl rfl

theorem hosts (r : Runner) : Hosts r (Sound cwd) :=
  .of_takes steady (fun _ hm => hm.of_eq rfl rfl) (fun _ hm => hm.of_eq rfl rfl) Sound.takes

theorem receives (output : Path) : Runner.Receives output (Sound cwd) (Sound cwd) :=
  .of_takes Sound.takes

end Sound

end Decompilation
