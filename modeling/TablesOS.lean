import TablesOS.Base.Outcome
import TablesOS.Engine.Journal
import TablesOS.Proofs.CodecRoundTrip
import TablesOS.Proofs.ValueRoundTrip
import TablesOS.Base.Program
import TablesOS.Engine.Pager
import TablesOS.Engine.Store
import TablesOS.Engine.Handle
import TablesOS.Proofs.DeviceCalls
import TablesOS.Proofs.JournalCrash
import TablesOS.Proofs.PagerRuns
import TablesOS.Proofs.Transactions
import TablesOS.Base.Arena
import TablesOS.Base.Linked
import TablesOS.Proofs.CacheTransparency
import TablesOS.Proofs.Interfaces
import TablesOS.Proofs.SectorTransfers
import TablesOS.Proofs.DiskContainment
import TablesOS.Proofs.ControllersApart
import TablesOS.Proofs.Attribution
import TablesOS.Proofs.BufferOwnership
import TablesOS.Proofs.BootMedium
import TablesOS.Proofs.Steady
import TablesOS.Proofs.Heap
import TablesOS.Spec.Database
import TablesOS.Proofs.Representation
import TablesOS.Proofs.Queries
import TablesOS.Proofs.Checks
import TablesOS.Proofs.Stages
import TablesOS.Proofs.Edits
import TablesOS.Proofs.TableEdits
import TablesOS.Proofs.RowEdits
import TablesOS.Proofs.Columns
import TablesOS.Proofs.Integrity
import TablesOS.Proofs.Refinement
import TablesOS.Proofs.Space
import TablesOS.Proofs.RowIds
import TablesOS.Spec.History
import TablesOS.Proofs.Runs
import TablesOS.Proofs.Constraints
import TablesOS.Proofs.ColumnEdits
import TablesOS.Base.PrefixCode
import TablesOS.Png.Inflate
import TablesOS.Png.Decode
import TablesOS.Spec.Deflate
import TablesOS.Spec.Png
import TablesOS.Proofs.Reading
import TablesOS.Proofs.Canonical
import TablesOS.Proofs.Inflating
import TablesOS.Proofs.Unfiltering
import TablesOS.Proofs.DecodeSafety
import TablesOS.Proofs.InstallRoom
import TablesOS.Spec.Configuration
import TablesOS.Proofs.Configurations
import TablesOS.Proofs.Renaming
import TablesOS.Base.Numeral
import TablesOS.Engine.Order
import TablesOS.Spec.Meaning
import TablesOS.Proofs.ValueOrder
import TablesOS.Engine.Parse
import TablesOS.Spec.Literal
import TablesOS.Proofs.ParseSafety
import TablesOS.Proofs.Parsing
import TablesOS.Base.CycleBit
import TablesOS.Kernel.TrbRing
import TablesOS.Proofs.RingAgreement
import TablesOS.Proofs.EventRing
import TablesOS.Kernel.EndpointContexts
import TablesOS.Proofs.EndpointAgreement
import TablesOS.Kernel.MouseReports
import TablesOS.Proofs.MouseInvariant
import TablesOS.Proofs.MouseDelivery
import TablesOS.Kernel.Autopilot
import TablesOS.Proofs.SecondRun
import TablesOS.Kernel.Browser
import TablesOS.Base.Sorting
import TablesOS.Proofs.BrowserRows
import TablesOS.Proofs.NextValue
import TablesOS.Proofs.RowNavigation
import TablesOS.Base.DropRing
import TablesOS.Kernel.Ps2
import TablesOS.Proofs.ShiftState
import TablesOS.Base.Descent
import TablesOS.Boot.Vesa
import TablesOS.Proofs.VideoMode
import TablesOS.Base.Probe
import TablesOS.Kernel.Acpi
import TablesOS.Spec.AcpiMemory
import TablesOS.Proofs.AcpiSearch
import TablesOS.Base.Gaps
import TablesOS.Kernel.ShortcutBar
import TablesOS.Proofs.BarReflow
import TablesOS.Kernel.Editor
import TablesOS.Proofs.UneditedRow
import TablesOS.Base.Memo
import TablesOS.Proofs.Peeks
import TablesOS.Proofs.RowCache
import TablesOS.Kernel.Fields
import TablesOS.Kernel.Screens
import TablesOS.Spec.Intents
import TablesOS.Proofs.Leads
import TablesOS.Proofs.ScreenReads
import TablesOS.Proofs.ScreenSteps
import TablesOS.Proofs.ScreenKeys
import TablesOS.Proofs.ScreenTurns
import TablesOS.Proofs.BrowserIntents
import TablesOS.Proofs.ChainStorage
import TablesOS.Base.Sweep
import TablesOS.Kernel.Framebuffer
import TablesOS.Spec.Picture
import TablesOS.Proofs.Pointer
import TablesOS.Proofs.DataIntegrity
import TablesOS.Proofs.Twins
import TablesOS.Proofs.LowPages
import TablesOS.Proofs.Refusals
import TablesOS.Proofs.Ownership
import TablesOS.Proofs.Reclaiming
import TablesOS.Spec.Restarts
import TablesOS.Proofs.Restarts
import TablesOS.Base.Mimic
import TablesOS.Proofs.Devices
import TablesOS.Proofs.VolumeRegion
import TablesOS.Kernel.AtaPorts
import TablesOS.Proofs.PortDriver
import TablesOS.Base.Memory
import TablesOS.Base.Ends
import TablesOS.Boot.Image
import TablesOS.Boot.Loader
import TablesOS.Kernel.Mbr
import TablesOS.Kernel.BootInfo
import TablesOS.Kernel.Startup
import TablesOS.Spec.Paging
import TablesOS.Proofs.ImageLayout
import TablesOS.Proofs.LoaderMemory
import TablesOS.Proofs.Handover
import TablesOS.Proofs.Startup
import TablesOS.Base.Dialog
import TablesOS.Kernel.Stick
import TablesOS.Kernel.UsbStartup
import TablesOS.Proofs.StickRuns
import TablesOS.Proofs.StickCommands
import TablesOS.Proofs.StickDriver
import TablesOS.Proofs.StickProbe
import TablesOS.Proofs.StickMount
import TablesOS.Proofs.StickRegion
import TablesOS.Kernel.Installer
import TablesOS.Proofs.Installation
import TablesOS.Proofs.InstalledSystem
import TablesOS.Base.Script
import TablesOS.Proofs.OneController
import TablesOS.Proofs.AtaCommands
import TablesOS.Proofs.InstallScript
