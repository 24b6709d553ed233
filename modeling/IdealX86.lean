import IdealX86.Loader.DetectTheorems
import IdealX86.Loader.ElfTheorems
import IdealX86.Loader.IntToStrTheorems
import IdealX86.Core.AllocTheorems
import IdealX86.Core.MemoryInitTheorems
import IdealX86.Core.CreateUvmTheorems
import IdealX86.Core.CreateMapTheorems
import IdealX86.Core.KernelTableTheorems
import IdealX86.Core.SleepWalkTheorems
import IdealX86.Cpu.PicTheorems
import IdealX86.Cpu.DescTheorems
import IdealX86.Cpu.DumpTheorems
import IdealX86.Tools.ItoaTheorems
import IdealX86.Tools.VsprintfTheorems
import IdealX86.Tools.KlibTheorems
import IdealX86.Tools.CompareTheorems
import IdealX86.Tools.BitmapTheorems
import IdealX86.Tools.BitmapSearchTheorems
import IdealX86.Tools.ListTheorems
import IdealX86.Machine.FairTheorems
import IdealX86.Machine.SemTheorems
import IdealX86.Machine.MutexTheorems
import IdealX86.Machine.SleepTheorems
import IdealX86.Machine.StateTheorems
import IdealX86.Machine.GdtTheorems
import IdealX86.Machine.InitTheorems
import IdealX86.Machine.LogTheorems
import IdealX86.Machine.DeadlockTheorems
import IdealX86.Machine.SectionTheorems
import IdealX86.Machine.OutputTheorems
import IdealX86.Cpu.IdtTheorems
import IdealX86.Cpu.I8259Theorems
import IdealX86.Loader.LoadKernelTheorems
import IdealX86.Tools.UartTheorems
import IdealX86.Machine.FineTheorems
import IdealX86.Core.SpacesTheorems
import IdealX86.Machine.SwitchTheorems
import IdealX86.Machine.SegmentTheorems
