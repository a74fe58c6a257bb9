import QspiFlash.Driver.Initialised
import QspiFlash.Driver.Coherent
import QspiFlash.Driver.NullSafe
import QspiFlash.Driver.CApi
import QspiFlash.Driver.Leak
import QspiFlash.Driver.DeviceFile
import QspiFlash.Driver.Waiting
import QspiFlash.Bus.Cache
import QspiFlash.Bus.Counter
import QspiFlash.Bus.Lengths
import QspiFlash.Bus.Events
import QspiFlash.Bus.Discipline
import QspiFlash.Bus.Default
import QspiFlash.Bus.Sleep
import QspiFlash.Block.Store
import QspiFlash.Block.Wear
import QspiFlash.Block.Success
import QspiFlash.Block.Bounds
import QspiFlash.Block.Sync
import QspiFlash.Block.SelfTest
